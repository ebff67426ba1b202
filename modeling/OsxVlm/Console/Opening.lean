import OsxVlm.Library.Enumeration

/-!
# The opening dialogue of the console

Lisp sends its own connection setup request, which the server would not answer a
second time, so the answer is put together from what Xlib keeps of the first one:
`ProcessConnectionRequest` returns one piece of it at each read and
`AdvanceOpeningState` finds the next piece.  A C `int` is a `BitVec 32`, an
`unsigned long` a `BitVec 64`; an array and its count are one list.  The padding
of the replies is left out.
-/

namespace Console

/-! ### What Xlib keeps of a display -/

structure Visual where
  visualid : BitVec 64
  class' : BitVec 32
  redMask : BitVec 64
  greenMask : BitVec 64
  blueMask : BitVec 64
  bitsPerRgb : BitVec 32
  mapEntries : BitVec 32
  deriving DecidableEq, Repr

structure Depth where
  depth : BitVec 32
  visuals : List Visual
  deriving DecidableEq, Repr

structure Screen where
  root : BitVec 64
  cmap : BitVec 64
  whitePixel : BitVec 64
  blackPixel : BitVec 64
  rootInputMask : BitVec 64
  width : BitVec 32
  height : BitVec 32
  mwidth : BitVec 32
  mheight : BitVec 32
  minMaps : BitVec 32
  maxMaps : BitVec 32
  rootVisual : Visual
  backingStore : BitVec 32
  saveUnders : BitVec 32
  rootDepth : BitVec 32
  depths : List Depth
  deriving DecidableEq, Repr

structure ScreenFormat where
  depth : BitVec 32
  bitsPerPixel : BitVec 32
  scanlinePad : BitVec 32
  deriving DecidableEq, Repr

structure Display where
  protoMajorVersion : BitVec 32
  protoMinorVersion : BitVec 32
  release : BitVec 32
  resourceBase : BitVec 64
  resourceMask : BitVec 64
  motionBuffer : BitVec 64
  vendor : List UInt8
  maxRequestSize : BitVec 32
  byteOrder : BitVec 32
  bitmapBitOrder : BitVec 32
  bitmapUnit : BitVec 32
  bitmapPad : BitVec 32
  minKeycode : BitVec 32
  maxKeycode : BitVec 32
  pixmapFormat : List ScreenFormat
  screens : List Screen
  deriving DecidableEq, Repr

/-! ### The pieces of the answer -/

structure ConnSetupPrefix where
  success : Bool
  lengthReason : BitVec 8
  majorVersion : BitVec 16
  minorVersion : BitVec 16
  length : BitVec 16
  deriving DecidableEq, Repr

structure ConnSetup where
  release : BitVec 32
  ridBase : BitVec 32
  ridMask : BitVec 32
  motionBufferSize : BitVec 32
  nbytesVendor : BitVec 16
  maxRequestSize : BitVec 16
  numRoots : BitVec 8
  numFormats : BitVec 8
  imageByteOrder : BitVec 8
  bitmapBitOrder : BitVec 8
  bitmapScanlineUnit : BitVec 8
  bitmapScanlinePad : BitVec 8
  minKeyCode : BitVec 8
  maxKeyCode : BitVec 8
  deriving DecidableEq, Repr

structure PixmapFormat where
  depth : BitVec 8
  bitsPerPixel : BitVec 8
  scanLinePad : BitVec 8
  deriving DecidableEq, Repr

structure WindowRoot where
  windowId : BitVec 32
  defaultColormap : BitVec 32
  whitePixel : BitVec 32
  blackPixel : BitVec 32
  currentInputMask : BitVec 32
  pixWidth : BitVec 16
  pixHeight : BitVec 16
  mmWidth : BitVec 16
  mmHeight : BitVec 16
  minInstalledMaps : BitVec 16
  maxInstalledMaps : BitVec 16
  rootVisualID : BitVec 32
  backingStore : BitVec 8
  saveUnders : BitVec 8
  rootDepth : BitVec 8
  nDepths : BitVec 8
  deriving DecidableEq, Repr

structure DepthItem where
  depth : BitVec 8
  nVisuals : BitVec 16
  deriving DecidableEq, Repr

structure VisualType where
  visualID : BitVec 32
  class' : BitVec 8
  bitsPerRGB : BitVec 8
  colormapEntries : BitVec 16
  redMask : BitVec 32
  greenMask : BitVec 32
  blueMask : BitVec 32
  deriving DecidableEq, Repr

/-- One piece of the answer, as one read returns it. -/
inductive Item where
  | setupPrefix (setupPrefix : ConnSetupPrefix)
  | setup (setup : ConnSetup)
  | vendor (bytes : List UInt8)
  | pixmapFormat (format : PixmapFormat)
  | windowRoot (root : WindowRoot)
  | depth (depth : DepthItem)
  | visualType (visual : VisualType)
  deriving DecidableEq, Repr

def Display.prefixItem (display : Display) : Item :=
  .setupPrefix {
    success := true
    lengthReason := 0
    majorVersion := display.protoMajorVersion.setWidth 16
    minorVersion := display.protoMinorVersion.setWidth 16
    length := 0 }

def Display.headerItem (display : Display) : Item :=
  .setup {
    release := display.release
    ridBase := display.resourceBase.setWidth 32
    ridMask := display.resourceMask.setWidth 32
    motionBufferSize := display.motionBuffer.setWidth 32
    nbytesVendor := BitVec.ofNat 16 display.vendor.length
    maxRequestSize := display.maxRequestSize.setWidth 16
    numRoots := BitVec.ofNat 8 display.screens.length
    numFormats := BitVec.ofNat 8 display.pixmapFormat.length
    imageByteOrder := display.byteOrder.setWidth 8
    bitmapBitOrder := display.bitmapBitOrder.setWidth 8
    bitmapScanlineUnit := display.bitmapUnit.setWidth 8
    bitmapScanlinePad := display.bitmapPad.setWidth 8
    minKeyCode := display.minKeycode.setWidth 8
    maxKeyCode := display.maxKeycode.setWidth 8 }

def Display.vendorItem (display : Display) : Item := .vendor display.vendor

def ScreenFormat.item (screenFormat : ScreenFormat) : Item :=
  .pixmapFormat {
    depth := screenFormat.depth.setWidth 8
    bitsPerPixel := screenFormat.bitsPerPixel.setWidth 8
    scanLinePad := screenFormat.scanlinePad.setWidth 8 }

def Screen.item (screen : Screen) : Item :=
  .windowRoot {
    windowId := screen.root.setWidth 32
    defaultColormap := screen.cmap.setWidth 32
    whitePixel := screen.whitePixel.setWidth 32
    blackPixel := screen.blackPixel.setWidth 32
    currentInputMask := screen.rootInputMask.setWidth 32
    pixWidth := screen.width.setWidth 16
    pixHeight := screen.height.setWidth 16
    mmWidth := screen.mwidth.setWidth 16
    mmHeight := screen.mheight.setWidth 16
    minInstalledMaps := screen.minMaps.setWidth 16
    maxInstalledMaps := screen.maxMaps.setWidth 16
    rootVisualID := screen.rootVisual.visualid.setWidth 32
    backingStore := screen.backingStore.setWidth 8
    saveUnders := screen.saveUnders.setWidth 8
    rootDepth := screen.rootDepth.setWidth 8
    nDepths := BitVec.ofNat 8 screen.depths.length }

def Depth.item (depth : Depth) : Item :=
  .depth {
    depth := depth.depth.setWidth 8
    nVisuals := BitVec.ofNat 16 depth.visuals.length }

def Visual.item (visual : Visual) : Item :=
  .visualType {
    visualID := visual.visualid.setWidth 32
    class' := visual.class'.setWidth 8
    bitsPerRGB := visual.bitsPerRgb.setWidth 8
    colormapEntries := visual.mapEntries.setWidth 16
    redMask := visual.redMask.setWidth 32
    greenMask := visual.greenMask.setWidth 32
    blueMask := visual.blueMask.setWidth 32 }

/-! ### The dialogue -/

inductive OpeningState where
  | stateNone
  | statePrefix
  | stateHeader
  | stateVendor
  | statePixmapFormat
  | stateRoot
  | stateRootDepth
  | stateRootDepthVisual
  deriving DecidableEq, Repr

structure Channel where
  openingState : OpeningState
  nextPixmapFormat : Nat
  nextRoot : Nat
  nextRootDepth : Nat
  nextRootDepthVisual : Nat
  deriving DecidableEq, Repr

/-- What a successful `OpenDisplay` does to the dialogue. -/
def openDisplay (consoleChannel : Channel) : Channel :=
  { consoleChannel with openingState := .statePrefix }

/-- `AdvanceOpeningState`; `none` is a read beyond an array. -/
def advanceOpeningState (display : Display) (consoleChannel : Channel) : Option Channel :=
  match consoleChannel.openingState with
  | .stateNone => some consoleChannel
  | .statePrefix => some { consoleChannel with openingState := .stateHeader }
  | .stateHeader => some { consoleChannel with openingState := .stateVendor }
  | .stateVendor =>
      if display.pixmapFormat.length > 0 then
        some { consoleChannel with openingState := .statePixmapFormat, nextPixmapFormat := 0 }
      else if display.screens.length > 0 then
        some { consoleChannel with openingState := .stateRoot, nextRoot := 0 }
      else some { consoleChannel with openingState := .stateNone }
  | .statePixmapFormat =>
      let nextPixmapFormat := consoleChannel.nextPixmapFormat + 1
      if nextPixmapFormat ≥ display.pixmapFormat.length then
        if display.screens.length > 0 then
          some { consoleChannel with
            openingState := .stateRoot, nextPixmapFormat := nextPixmapFormat, nextRoot := 0 }
        else
          some { consoleChannel with
            openingState := .stateNone, nextPixmapFormat := nextPixmapFormat }
      else some { consoleChannel with nextPixmapFormat := nextPixmapFormat }
  | .stateRoot => do
      let screen ← display.screens[consoleChannel.nextRoot]?
      if screen.depths.length > 0 then
        some { consoleChannel with openingState := .stateRootDepth, nextRootDepth := 0 }
      else
        let nextRoot := consoleChannel.nextRoot + 1
        if nextRoot ≥ display.screens.length then
          some { consoleChannel with openingState := .stateNone, nextRoot := nextRoot }
        else some { consoleChannel with nextRoot := nextRoot }
  | .stateRootDepth => do
      let screen ← display.screens[consoleChannel.nextRoot]?
      let depth ← screen.depths[consoleChannel.nextRootDepth]?
      if depth.visuals.length > 0 then
        some { consoleChannel with openingState := .stateRootDepthVisual, nextRootDepthVisual := 0 }
      else
        let nextRootDepth := consoleChannel.nextRootDepth + 1
        if nextRootDepth ≥ screen.depths.length then
          let nextRoot := consoleChannel.nextRoot + 1
          if nextRoot ≥ display.screens.length then
            some { consoleChannel with
              openingState := .stateNone, nextRootDepth := nextRootDepth, nextRoot := nextRoot }
          else
            -- the state stays, although the next piece is the root of the next screen
            some { consoleChannel with nextRootDepth := nextRootDepth, nextRoot := nextRoot }
        else some { consoleChannel with nextRootDepth := nextRootDepth }
  | .stateRootDepthVisual => do
      let screen ← display.screens[consoleChannel.nextRoot]?
      let depth ← screen.depths[consoleChannel.nextRootDepth]?
      let nextRootDepthVisual := consoleChannel.nextRootDepthVisual + 1
      if nextRootDepthVisual ≥ depth.visuals.length then
        let nextRootDepth := consoleChannel.nextRootDepth + 1
        if nextRootDepth ≥ screen.depths.length then
          let nextRoot := consoleChannel.nextRoot + 1
          if nextRoot ≥ display.screens.length then
            some { consoleChannel with
              openingState := .stateNone, nextRootDepthVisual := nextRootDepthVisual,
              nextRootDepth := nextRootDepth, nextRoot := nextRoot }
          else
            some { consoleChannel with
              openingState := .stateRoot, nextRootDepthVisual := nextRootDepthVisual,
              nextRootDepth := nextRootDepth, nextRoot := nextRoot }
        else
          some { consoleChannel with
            openingState := .stateRootDepth, nextRootDepthVisual := nextRootDepthVisual,
            nextRootDepth := nextRootDepth }
      else some { consoleChannel with nextRootDepthVisual := nextRootDepthVisual }

/-- The piece that the state stands for; `some none` in the state without one. -/
def currentItem (display : Display) (consoleChannel : Channel) : Option (Option Item) :=
  match consoleChannel.openingState with
  | .stateNone => some none
  | .statePrefix => some (some display.prefixItem)
  | .stateHeader => some (some display.headerItem)
  | .stateVendor => some (some display.vendorItem)
  | .statePixmapFormat => do
      let screenFormat ← display.pixmapFormat[consoleChannel.nextPixmapFormat]?
      some (some screenFormat.item)
  | .stateRoot => do
      let screen ← display.screens[consoleChannel.nextRoot]?
      some (some screen.item)
  | .stateRootDepth => do
      let screen ← display.screens[consoleChannel.nextRoot]?
      let depth ← screen.depths[consoleChannel.nextRootDepth]?
      some (some depth.item)
  | .stateRootDepthVisual => do
      let screen ← display.screens[consoleChannel.nextRoot]?
      let depth ← screen.depths[consoleChannel.nextRootDepth]?
      let visual ← depth.visuals[consoleChannel.nextRootDepthVisual]?
      some (some visual.item)

/-- `ProcessConnectionRequest`: what is copied to the caller's buffer, and the state after. -/
def processConnectionRequest (display : Display) (consoleChannel : Channel) :
    Option (Option Item × Channel) := do
  let data ← currentItem display consoleChannel
  let consoleChannel' ← advanceOpeningState display consoleChannel
  some (data, consoleChannel')

/-- Where a read command went: a piece of the answer, or on to the server. -/
inductive Reply where
  | setup (data : Option Item)
  | server
  deriving DecidableEq, Repr

/-- `DoConsoleIO` for `EmbConsoleCommandRead`. -/
def doConsoleRead (display : Display) (consoleChannel : Channel) : Option (Reply × Channel) :=
  if consoleChannel.openingState ≠ .stateNone then do
    let (data, consoleChannel') ← processConnectionRequest display consoleChannel
    some (.setup data, consoleChannel')
  else some (.server, consoleChannel)

/-! ### The setup sequence -/

def Depth.items (depth : Depth) : List Item := depth.item :: depth.visuals.map Visual.item

def Screen.items (screen : Screen) : List Item := screen.item :: screen.depths.flatMap Depth.items

/-- The answer of the server, piece by piece. -/
def Display.setupSequence (display : Display) : List Item :=
  display.prefixItem :: display.headerItem :: display.vendorItem ::
    (display.pixmapFormat.map ScreenFormat.item ++ display.screens.flatMap Screen.items)

/-- The screen has no depths, or the last of them has visuals. -/
def Screen.EndsInVisual (screen : Screen) : Prop :=
  ∀ depth ∈ screen.depths.getLast?, depth.visuals ≠ []

instance (screen : Screen) : Decidable screen.EndsInVisual :=
  inferInstanceAs (Decidable (∀ depth ∈ screen.depths.getLast?, depth.visuals ≠ []))

/-- Reads give the setup sequence and then go to the server, and the state says so from the
last piece on. -/
def Replays (display : Display) (consoleChannel : Channel) : Prop :=
  ∀ n, ∃ consoleChannel',
    Enumeration.reads (doConsoleRead display) n consoleChannel =
      some ((display.setupSequence.take n).map (fun item => .setup (some item)) ++
        List.replicate (n - display.setupSequence.length) .server, consoleChannel') ∧
    (consoleChannel'.openingState = .stateNone ↔ display.setupSequence.length ≤ n)

/-! ### Where the dialogue stands -/

/-- The pieces still to come in a state of the dialogue, each index standing at the first
element that has not been left. -/
inductive Pending (display : Display) (c : Channel) : List Item → Prop
  | done (hstate : c.openingState = .stateNone) : Pending display c []
  | setupPrefix (hstate : c.openingState = .statePrefix) : Pending display c display.setupSequence
  | header (hstate : c.openingState = .stateHeader) :
      Pending display c (display.headerItem :: display.vendorItem ::
        (display.pixmapFormat.map ScreenFormat.item ++ display.screens.flatMap Screen.items))
  | vendor (hstate : c.openingState = .stateVendor) :
      Pending display c (display.vendorItem ::
        (display.pixmapFormat.map ScreenFormat.item ++ display.screens.flatMap Screen.items))
  | pixmapFormat (hstate : c.openingState = .statePixmapFormat) {f : ScreenFormat}
      {fs : List ScreenFormat} (hf : display.pixmapFormat.drop c.nextPixmapFormat = f :: fs) :
      Pending display c (f.item ::
        (fs.map ScreenFormat.item ++ display.screens.flatMap Screen.items))
  | root (hstate : c.openingState = .stateRoot) {s : Screen} {ss : List Screen}
      (hs : display.screens.drop c.nextRoot = s :: ss) :
      Pending display c (s.item :: (s.depths.flatMap Depth.items ++ ss.flatMap Screen.items))
  | rootDepth (hstate : c.openingState = .stateRootDepth) {s : Screen} {ss : List Screen}
      (hs : display.screens.drop c.nextRoot = s :: ss) {d : Depth} {ds : List Depth}
      (hd : s.depths.drop c.nextRootDepth = d :: ds) :
      Pending display c (d.item ::
        (d.visuals.map Visual.item ++ (ds.flatMap Depth.items ++ ss.flatMap Screen.items)))
  | rootDepthVisual (hstate : c.openingState = .stateRootDepthVisual) {s : Screen}
      {ss : List Screen} (hs : display.screens.drop c.nextRoot = s :: ss) {d : Depth}
      {ds : List Depth} (hd : s.depths.drop c.nextRootDepth = d :: ds) {v : Visual}
      {vs : List Visual} (hv : d.visuals.drop c.nextRootDepthVisual = v :: vs) :
      Pending display c (v.item ::
        (vs.map Visual.item ++ (ds.flatMap Depth.items ++ ss.flatMap Screen.items)))

/-- The screens that the dialogue has still to leave, the last of all apart. -/
def toLeave (display : Display) (c : Channel) : List Screen :=
  match c.openingState with
  | .stateNone => []
  | .stateRoot | .stateRootDepth | .stateRootDepthVisual =>
      (display.screens.drop c.nextRoot).dropLast
  | _ => display.screens.dropLast

/-- Every one of them leads on to the root of the next. -/
def Ahead (display : Display) (c : Channel) : Prop :=
  ∀ s ∈ toLeave display c, s.EndsInVisual

/-- Past the last depth of a screen, but in the state of its depths. -/
def Lost (display : Display) (c : Channel) (items : List Item) : Prop :=
  c.openingState = .stateRootDepth ∧ ∃ (s : Screen) (rest : List Item), items = s.item :: rest

section Position

variable {α : Type*} {l xs : List α} {n : Nat} {x : α}

theorem getElem?_of_drop (h : l.drop n = x :: xs) : l[n]? = some x := by
  rw [← List.head?_drop, h]
  rfl

theorem drop_succ_of_drop (h : l.drop n = x :: xs) : l.drop (n + 1) = xs := by
  rw [← List.tail_drop, h]
  rfl

theorem length_of_drop (h : l.drop n = x :: xs) : l.length = n + 1 + xs.length := by
  have hlen := congrArg List.length h
  rw [List.length_drop, List.length_cons] at hlen
  omega

theorem getLast?_of_drop (h : l.drop n = [x]) : l.getLast? = some x := by
  rw [← List.take_append_drop n l, h]
  simp

end Position

/-! ### One read -/

section Read

variable {display : Display} {c : Channel} {b : Item} {bs : List Item}

/-- What one read does when it returns `b` and `bs` is to follow. -/
def Reads (display : Display) (c : Channel) (b : Item) (bs : List Item) : Prop :=
  ∃ c', doConsoleRead display c = some (.setup (some b), c') ∧
    (Pending display c' bs ∧ (Ahead display c ↔ Ahead display c') ∨
      Lost display c' bs ∧ ¬ Ahead display c)

theorem doConsoleRead_eq {c' : Channel} (hstate : c.openingState ≠ .stateNone)
    (hitem : currentItem display c = some (some b)) (hadv : advanceOpeningState display c = some c') :
    doConsoleRead display c = some (.setup (some b), c') := by
  rw [doConsoleRead, if_pos hstate, processConnectionRequest, hitem, hadv]
  rfl

/-- Leaving a screen asks for its last depth, unless it is the last screen. -/
theorem forall_dropLast_cons {P : Screen → Prop} {s : Screen} {ss : List Screen} :
    (∀ x ∈ (s :: ss).dropLast, P x) ↔ (ss ≠ [] → P s) ∧ ∀ x ∈ ss.dropLast, P x := by
  cases ss with
  | nil => simp
  | cons t ss => simp

theorem reads_prefix (hstate : c.openingState = .statePrefix) :
    Reads display c display.prefixItem (display.headerItem :: display.vendorItem ::
      (display.pixmapFormat.map ScreenFormat.item ++ display.screens.flatMap Screen.items)) := by
  refine ⟨{ c with openingState := .stateHeader },
    doConsoleRead_eq (by simp [hstate]) (by simp [currentItem, hstate])
      (by simp [advanceOpeningState, hstate]), .inl ⟨.header rfl, ?_⟩⟩
  simp [Ahead, toLeave, hstate]

theorem reads_header (hstate : c.openingState = .stateHeader) :
    Reads display c display.headerItem (display.vendorItem ::
      (display.pixmapFormat.map ScreenFormat.item ++ display.screens.flatMap Screen.items)) := by
  refine ⟨{ c with openingState := .stateVendor },
    doConsoleRead_eq (by simp [hstate]) (by simp [currentItem, hstate])
      (by simp [advanceOpeningState, hstate]), .inl ⟨.vendor rfl, ?_⟩⟩
  simp [Ahead, toLeave, hstate]

/-- The state in which the screens begin. -/
theorem pending_screens (display : Display) (c : Channel) :
    ∃ c' : Channel, c' = (if display.screens.length > 0 then
        { c with openingState := .stateRoot, nextRoot := 0 }
      else { c with openingState := .stateNone }) ∧
      Pending display c' (display.screens.flatMap Screen.items) ∧
      ((∀ s ∈ display.screens.dropLast, s.EndsInVisual) ↔ Ahead display c') := by
  refine ⟨_, rfl, ?_⟩
  cases hs : display.screens with
  | nil =>
      refine ⟨by simpa using Pending.done rfl, by simp [Ahead, toLeave]⟩
  | cons s ss =>
      refine ⟨?_, by simp [Ahead, toLeave, hs]⟩
      simpa [Screen.items] using
        Pending.root (c := { c with openingState := .stateRoot, nextRoot := 0 }) rfl
          (show display.screens.drop 0 = s :: ss by rw [List.drop_zero, hs])

theorem reads_vendor (hstate : c.openingState = .stateVendor) :
    Reads display c display.vendorItem
      (display.pixmapFormat.map ScreenFormat.item ++ display.screens.flatMap Screen.items) := by
  cases hf : display.pixmapFormat with
  | nil =>
      obtain ⟨c', hc', hpend, hahead⟩ := pending_screens display c
      refine ⟨c', doConsoleRead_eq (by simp [hstate]) (by simp [currentItem, hstate]) ?_,
        .inl ⟨by simpa using hpend, by rw [← hahead]; simp [Ahead, toLeave, hstate]⟩⟩
      rw [advanceOpeningState, hstate, hc']
      simp only [hf, List.length_nil, gt_iff_lt, lt_irrefl, if_false]
      split <;> rfl
  | cons f fs =>
      refine ⟨{ c with openingState := .statePixmapFormat, nextPixmapFormat := 0 },
        doConsoleRead_eq (by simp [hstate]) (by simp [currentItem, hstate])
          (by simp [advanceOpeningState, hstate, hf]), .inl ⟨?_, by simp [Ahead, toLeave, hstate]⟩⟩
      exact .pixmapFormat rfl (by rw [List.drop_zero, hf])

theorem reads_pixmapFormat (hstate : c.openingState = .statePixmapFormat) {f : ScreenFormat}
    {fs : List ScreenFormat} (hf : display.pixmapFormat.drop c.nextPixmapFormat = f :: fs) :
    Reads display c f.item (fs.map ScreenFormat.item ++ display.screens.flatMap Screen.items) := by
  have hlen := length_of_drop hf
  have hitem : currentItem display c = some (some f.item) := by
    simp [currentItem, hstate, getElem?_of_drop hf]
  cases fs with
  | nil =>
      obtain ⟨c', hc', hpend, hahead⟩ := pending_screens display
        { c with nextPixmapFormat := c.nextPixmapFormat + 1 }
      refine ⟨c', doConsoleRead_eq (by simp [hstate]) hitem ?_,
        .inl ⟨by simpa using hpend, by rw [← hahead]; simp [Ahead, toLeave, hstate]⟩⟩
      rw [advanceOpeningState, hstate, hc']
      simp only [hlen, List.length_nil, Nat.add_zero, ge_iff_le, le_refl, if_true]
      split <;> rfl
  | cons g gs =>
      refine ⟨{ c with nextPixmapFormat := c.nextPixmapFormat + 1 },
        doConsoleRead_eq (by simp [hstate]) hitem ?_, .inl ⟨?_, by simp [Ahead, toLeave, hstate]⟩⟩
      · simp [advanceOpeningState, hstate, hlen]
      · exact .pixmapFormat (c := { c with nextPixmapFormat := c.nextPixmapFormat + 1 }) hstate
          (drop_succ_of_drop hf)

/-- A screen left for the root of the next one, if there is one. -/
def nextScreen (display : Display) (c : Channel) : Channel :=
  if c.nextRoot + 1 ≥ display.screens.length then
    { c with openingState := .stateNone, nextRoot := c.nextRoot + 1 }
  else { c with openingState := .stateRoot, nextRoot := c.nextRoot + 1 }

theorem pending_nextScreen {s : Screen} {ss : List Screen}
    (hs : display.screens.drop c.nextRoot = s :: ss) :
    Pending display (nextScreen display c) (ss.flatMap Screen.items) ∧
      ((∀ x ∈ ss.dropLast, x.EndsInVisual) ↔ Ahead display (nextScreen display c)) := by
  have hlen := length_of_drop hs
  cases ss with
  | nil =>
      rw [nextScreen, if_pos (by simp [hlen])]
      exact ⟨.done rfl, by simp [Ahead, toLeave]⟩
  | cons t ss =>
      rw [nextScreen, if_neg (by simp [hlen])]
      have hnext := drop_succ_of_drop hs
      refine ⟨?_, by simp [Ahead, toLeave, hnext]⟩
      simpa [Screen.items] using
        Pending.root (c := { c with openingState := .stateRoot, nextRoot := c.nextRoot + 1 })
          rfl hnext

/-- A screen that leads on is no obstacle to leaving it. -/
theorem ahead_nextScreen {s : Screen} {ss : List Screen}
    (hleave : toLeave display c = (s :: ss).dropLast) (hend : s.EndsInVisual) :
    Ahead display c ↔ ∀ x ∈ ss.dropLast, x.EndsInVisual := by
  rw [Ahead, hleave, forall_dropLast_cons]
  exact and_iff_right fun _ => hend

theorem reads_root (hstate : c.openingState = .stateRoot) {s : Screen} {ss : List Screen}
    (hs : display.screens.drop c.nextRoot = s :: ss) :
    Reads display c s.item (s.depths.flatMap Depth.items ++ ss.flatMap Screen.items) := by
  have hitem : currentItem display c = some (some s.item) := by
    simp [currentItem, hstate, getElem?_of_drop hs]
  have hleave : toLeave display c = (s :: ss).dropLast := by rw [toLeave, hstate, hs]
  cases hd : s.depths with
  | nil =>
      have hnext := pending_nextScreen hs
      refine ⟨nextScreen display c, doConsoleRead_eq (by simp [hstate]) hitem ?_,
        .inl ⟨by simpa using hnext.1, ?_⟩⟩
      · rw [advanceOpeningState, hstate, nextScreen]
        simp only [getElem?_of_drop hs, hd, Option.bind_eq_bind, Option.bind_some,
          List.length_nil, gt_iff_lt, lt_irrefl, if_false]
        split <;> simp
      · rw [← hnext.2, ahead_nextScreen hleave (by simp [Screen.EndsInVisual, hd])]
  | cons d ds =>
      refine ⟨{ c with openingState := .stateRootDepth, nextRootDepth := 0 },
        doConsoleRead_eq (by simp [hstate]) hitem ?_, .inl ⟨?_, by simp [Ahead, toLeave, hstate]⟩⟩
      · simp [advanceOpeningState, hstate, getElem?_of_drop hs, hd]
      · simpa [Depth.items] using
          Pending.rootDepth (c := { c with openingState := .stateRootDepth, nextRootDepth := 0 })
            rfl hs (show s.depths.drop 0 = d :: ds by rw [List.drop_zero, hd])

theorem advance_rootDepth (hstate : c.openingState = .stateRootDepth) {s : Screen}
    {ss : List Screen} (hs : display.screens.drop c.nextRoot = s :: ss) {d : Depth}
    {ds : List Depth} (hd : s.depths.drop c.nextRootDepth = d :: ds) :
    advanceOpeningState display c =
      if d.visuals.length > 0 then
        some { c with openingState := .stateRootDepthVisual, nextRootDepthVisual := 0 }
      else if c.nextRootDepth + 1 ≥ s.depths.length then
        if c.nextRoot + 1 ≥ display.screens.length then
          some { c with
            openingState := .stateNone, nextRootDepth := c.nextRootDepth + 1,
            nextRoot := c.nextRoot + 1 }
        else
          some { c with nextRootDepth := c.nextRootDepth + 1, nextRoot := c.nextRoot + 1 }
      else some { c with nextRootDepth := c.nextRootDepth + 1 } := by
  rw [advanceOpeningState, hstate]
  simp only [getElem?_of_drop hs, getElem?_of_drop hd, Option.bind_eq_bind, Option.bind_some]

theorem advance_rootDepthVisual (hstate : c.openingState = .stateRootDepthVisual) {s : Screen}
    {ss : List Screen} (hs : display.screens.drop c.nextRoot = s :: ss) {d : Depth}
    {ds : List Depth} (hd : s.depths.drop c.nextRootDepth = d :: ds) :
    advanceOpeningState display c =
      if c.nextRootDepthVisual + 1 ≥ d.visuals.length then
        if c.nextRootDepth + 1 ≥ s.depths.length then
          some (nextScreen display { c with
            nextRootDepthVisual := c.nextRootDepthVisual + 1,
            nextRootDepth := c.nextRootDepth + 1 })
        else
          some { c with
            openingState := .stateRootDepth, nextRootDepthVisual := c.nextRootDepthVisual + 1,
            nextRootDepth := c.nextRootDepth + 1 }
      else some { c with nextRootDepthVisual := c.nextRootDepthVisual + 1 } := by
  rw [advanceOpeningState, hstate]
  simp only [getElem?_of_drop hs, getElem?_of_drop hd, Option.bind_eq_bind, Option.bind_some,
    nextScreen]
  split
  · split
    · split <;> rfl
    · rfl
  · rfl

/-- The one read after which the state does not fit the next piece: the last depth of a
screen before the last, without visuals. -/
theorem reads_rootDepth (hstate : c.openingState = .stateRootDepth) {s : Screen}
    {ss : List Screen} (hs : display.screens.drop c.nextRoot = s :: ss) {d : Depth}
    {ds : List Depth} (hd : s.depths.drop c.nextRootDepth = d :: ds) :
    Reads display c d.item
      (d.visuals.map Visual.item ++ (ds.flatMap Depth.items ++ ss.flatMap Screen.items)) := by
  have hlen := length_of_drop hs
  have hlend := length_of_drop hd
  have hitem : currentItem display c = some (some d.item) := by
    simp [currentItem, hstate, getElem?_of_drop hs, getElem?_of_drop hd]
  have hleave : toLeave display c = (s :: ss).dropLast := by rw [toLeave, hstate, hs]
  have hadv := advance_rootDepth hstate hs hd
  cases hv : d.visuals with
  | cons v vs =>
      refine ⟨{ c with openingState := .stateRootDepthVisual, nextRootDepthVisual := 0 },
        doConsoleRead_eq (by simp [hstate]) hitem ?_, .inl ⟨?_, by simp [Ahead, toLeave, hstate]⟩⟩
      · rw [hadv]
        simp [hv]
      · exact .rootDepthVisual
          (c := { c with openingState := .stateRootDepthVisual, nextRootDepthVisual := 0 })
          rfl hs hd (show d.visuals.drop 0 = v :: vs by rw [List.drop_zero, hv])
  | nil =>
      cases ds with
      | cons e es =>
          refine ⟨{ c with nextRootDepth := c.nextRootDepth + 1 },
            doConsoleRead_eq (by simp [hstate]) hitem ?_,
            .inl ⟨?_, by simp [Ahead, toLeave, hstate]⟩⟩
          · rw [hadv]
            simp [hv, hlend, hstate]
          · simpa [Depth.items] using
              Pending.rootDepth (c := { c with nextRootDepth := c.nextRootDepth + 1 })
                hstate hs (drop_succ_of_drop hd)
      | nil =>
          cases ss with
          | nil =>
              refine ⟨{ c with
                  openingState := .stateNone, nextRootDepth := c.nextRootDepth + 1,
                  nextRoot := c.nextRoot + 1 },
                doConsoleRead_eq (by simp [hstate]) hitem ?_, .inl ⟨.done rfl, ?_⟩⟩
              · rw [hadv]
                simp [hv, hlend, hlen]
              · rw [Ahead, hleave]
                simp [Ahead, toLeave]
          | cons t ss =>
              refine ⟨{ c with
                  nextRootDepth := c.nextRootDepth + 1, nextRoot := c.nextRoot + 1 },
                doConsoleRead_eq (by simp [hstate]) hitem ?_,
                .inr ⟨⟨hstate, t, _, by simp [Screen.items]; rfl⟩, ?_⟩⟩
              · rw [hadv]
                simp [hv, hlend, hlen, hstate]
              · intro hahead
                rw [Ahead, hleave, forall_dropLast_cons] at hahead
                exact hahead.1 (by simp) d (getLast?_of_drop hd) hv

theorem reads_rootDepthVisual (hstate : c.openingState = .stateRootDepthVisual) {s : Screen}
    {ss : List Screen} (hs : display.screens.drop c.nextRoot = s :: ss) {d : Depth}
    {ds : List Depth} (hd : s.depths.drop c.nextRootDepth = d :: ds) {v : Visual}
    {vs : List Visual} (hv : d.visuals.drop c.nextRootDepthVisual = v :: vs) :
    Reads display c v.item
      (vs.map Visual.item ++ (ds.flatMap Depth.items ++ ss.flatMap Screen.items)) := by
  have hlend := length_of_drop hd
  have hlenv := length_of_drop hv
  have hitem : currentItem display c = some (some v.item) := by
    simp [currentItem, hstate, getElem?_of_drop hs, getElem?_of_drop hd, getElem?_of_drop hv]
  have hleave : toLeave display c = (s :: ss).dropLast := by rw [toLeave, hstate, hs]
  have hadv := advance_rootDepthVisual hstate hs hd
  cases vs with
  | cons w ws =>
      refine ⟨{ c with nextRootDepthVisual := c.nextRootDepthVisual + 1 },
        doConsoleRead_eq (by simp [hstate]) hitem ?_, .inl ⟨?_, by simp [Ahead, toLeave, hstate]⟩⟩
      · rw [hadv]
        simp [hlenv, hstate]
      · exact .rootDepthVisual
          (c := { c with nextRootDepthVisual := c.nextRootDepthVisual + 1 })
          hstate hs hd (drop_succ_of_drop hv)
  | nil =>
      cases ds with
      | cons e es =>
          refine ⟨{ c with
              openingState := .stateRootDepth,
              nextRootDepthVisual := c.nextRootDepthVisual + 1,
              nextRootDepth := c.nextRootDepth + 1 },
            doConsoleRead_eq (by simp [hstate]) hitem ?_,
            .inl ⟨?_, by simp [Ahead, toLeave, hstate]⟩⟩
          · rw [hadv]
            simp [hlend, hlenv]
          · simpa [Depth.items] using
              Pending.rootDepth
                (c := { c with
                  openingState := .stateRootDepth,
                  nextRootDepthVisual := c.nextRootDepthVisual + 1,
                  nextRootDepth := c.nextRootDepth + 1 })
                rfl hs (drop_succ_of_drop hd)
      | nil =>
          have hend : s.EndsInVisual := by
            intro e he hnil
            obtain rfl : d = e := Option.some.inj ((getLast?_of_drop hd).symm.trans he)
            rw [hnil, List.drop_nil] at hv
            cases hv
          have hnext := pending_nextScreen (c := { c with
            nextRootDepthVisual := c.nextRootDepthVisual + 1,
            nextRootDepth := c.nextRootDepth + 1 }) hs
          refine ⟨nextScreen display { c with
              nextRootDepthVisual := c.nextRootDepthVisual + 1,
              nextRootDepth := c.nextRootDepth + 1 },
            doConsoleRead_eq (by simp [hstate]) hitem ?_, .inl ⟨by simpa using hnext.1, ?_⟩⟩
          · rw [hadv]
            simp only [hlend, hlenv, List.length_nil, Nat.add_zero, ge_iff_le, le_refl, if_true]
          · rw [← hnext.2, ahead_nextScreen hleave hend]

/-- **What one read does**, wherever the dialogue stands. -/
theorem reads_of_pending (h : Pending display c (b :: bs)) : Reads display c b bs := by
  generalize hall : b :: bs = all at h
  cases h with
  | done hstate => cases hall
  | setupPrefix hstate => cases hall; exact reads_prefix hstate
  | header hstate => cases hall; exact reads_header hstate
  | vendor hstate => cases hall; exact reads_vendor hstate
  | pixmapFormat hstate hf => cases hall; exact reads_pixmapFormat hstate hf
  | root hstate hs => cases hall; exact reads_root hstate hs
  | rootDepth hstate hs hd => cases hall; exact reads_rootDepth hstate hs hd
  | rootDepthVisual hstate hs hd hv => cases hall; exact reads_rootDepthVisual hstate hs hd hv

theorem pending_nil (h : Pending display c []) : c.openingState = .stateNone := by
  generalize hall : ([] : List Item) = all at h
  cases h with
  | done hstate => exact hstate
  | _ => cases hall

theorem pending_cons (h : Pending display c (b :: bs)) : c.openingState ≠ .stateNone := by
  generalize hall : b :: bs = all at h
  cases h with
  | done hstate => cases hall
  | _ hstate => simp [hstate]

end Read

/-! ### The whole dialogue -/

variable {display : Display} {c : Channel} {items : List Item}

/-- Reads give the pieces still to come and then go to the server. -/
def Follows (display : Display) (c : Channel) (items : List Item) : Prop :=
  ∀ n, ∃ c', Enumeration.reads (doConsoleRead display) n c =
    some ((items.take n).map (fun item => .setup (some item)) ++
      List.replicate (n - items.length) .server, c') ∧
    (c'.openingState = .stateNone ↔ items.length ≤ n)

/-- The replies still to come in a state from which the dialogue goes well. -/
def Answers (display : Display) (c : Channel) (replies : List Reply) : Prop :=
  ∃ items : List Item, replies = items.map (fun item => .setup (some item)) ∧
    Pending display c items ∧ Ahead display c

theorem answers_cons {reply : Reply} {replies : List Reply}
    (h : Answers display c (reply :: replies)) :
    ∃ c', doConsoleRead display c = some (reply, c') ∧ Answers display c' replies := by
  obtain ⟨items, hitems, hpend, hahead⟩ := h
  cases items with
  | nil => cases hitems
  | cons b bs =>
      obtain ⟨rfl, rfl⟩ := List.cons.inj hitems
      obtain ⟨c', hread, ⟨hpend', hiff⟩ | ⟨-, hnot⟩⟩ := reads_of_pending hpend
      · exact ⟨c', hread, bs, rfl, hpend', hiff.mp hahead⟩
      · exact absurd hahead hnot

theorem answers_nil (h : Answers display c []) : doConsoleRead display c = some (.server, c) := by
  obtain ⟨items, hitems, hpend, -⟩ := h
  obtain rfl := List.map_eq_nil_iff.mp hitems.symm
  rw [doConsoleRead, if_neg (not_not.mpr (pending_nil hpend))]

theorem follows_of_ahead (hpend : Pending display c items) (hahead : Ahead display c) :
    Follows display c items := by
  intro n
  obtain ⟨c', hreads, rest, hrest, hpend', -⟩ :=
    Enumeration.reads_of_step (fun _ _ _ => answers_cons) (fun _ => answers_nil)
      (show Answers display c _ from ⟨items, rfl, hpend, hahead⟩) n
  refine ⟨c', by simpa using hreads, ?_⟩
  have hlen := congrArg List.length hrest
  rw [List.length_drop, List.length_map, List.length_map] at hlen
  cases rest with
  | nil =>
      rw [List.length_nil] at hlen
      exact ⟨fun _ => by omega, fun _ => pending_nil hpend'⟩
  | cons b bs =>
      rw [List.length_cons] at hlen
      exact ⟨fun hnone => absurd hnone (pending_cons hpend'), fun _ => by omega⟩

theorem Follows.tail {c' : Channel} {b : Item} (h : Follows display c (b :: items))
    (hread : doConsoleRead display c = some (.setup (some b), c')) : Follows display c' items := by
  intro n
  obtain ⟨c'', hreads, hnone⟩ := h (n + 1)
  rw [Enumeration.reads_succ hread, Option.map_eq_some_iff] at hreads
  obtain ⟨⟨rs, d⟩, hrs, heq⟩ := hreads
  simp only [List.take_succ_cons, List.map_cons, List.length_cons, Nat.add_sub_add_right,
    List.cons_append, Prod.mk.injEq, List.cons.injEq, true_and] at heq
  obtain ⟨rfl, rfl⟩ := heq
  exact ⟨d, hrs, by simpa using hnone⟩

/-- A read in the state of the depths returns a depth, if anything. -/
theorem not_follows_of_lost (h : Lost display c items) : ¬ Follows display c items := by
  obtain ⟨hstate, s, rest, rfl⟩ := h
  intro hfollows
  obtain ⟨c', hreads, -⟩ := hfollows 1
  cases hitem : currentItem display c with
  | none =>
      simp [Enumeration.reads, doConsoleRead, hstate, processConnectionRequest, hitem] at hreads
  | some item =>
      have hdepth : ∃ d : Depth, item = some d.item := by
        rw [currentItem, hstate] at hitem
        simp only [Option.bind_eq_bind, Option.bind_eq_some_iff, Option.some.injEq] at hitem
        obtain ⟨-, -, d, -, rfl⟩ := hitem
        exact ⟨d, rfl⟩
      obtain ⟨d, rfl⟩ := hdepth
      cases hadv : advanceOpeningState display c with
      | none =>
          simp [Enumeration.reads, doConsoleRead, hstate, processConnectionRequest, hitem, hadv]
            at hreads
      | some c'' =>
          simp [Enumeration.reads, doConsoleRead, hstate, processConnectionRequest, hitem, hadv,
            Depth.item, Screen.item] at hreads

theorem ahead_of_follows (hpend : Pending display c items) (hfollows : Follows display c items) :
    Ahead display c := by
  induction items generalizing c with
  | nil => simp [Ahead, toLeave, pending_nil hpend]
  | cons b bs ih =>
      obtain ⟨c', hread, ⟨hpend', hiff⟩ | ⟨hlost, -⟩⟩ := reads_of_pending hpend
      · exact hiff.mpr (ih hpend' (hfollows.tail hread))
      · exact absurd (hfollows.tail hread) (not_follows_of_lost hlost)

/-- **The setup is replayed exactly when every screen before the last leads on to the next**:
it has no depths, or its last depth has visuals. -/
theorem replays_iff (display : Display) (consoleChannel : Channel) :
    Replays display (openDisplay consoleChannel) ↔
      ∀ screen ∈ display.screens.dropLast, screen.EndsInVisual := by
  have hpend : Pending display (openDisplay consoleChannel) display.setupSequence :=
    .setupPrefix rfl
  exact ⟨ahead_of_follows hpend, follows_of_ahead hpend⟩

/-- A screen with a true colour visual at depth 24, and a depth for bitmaps only. -/
def plainScreen : Screen where
  root := 1
  cmap := 2
  whitePixel := 0xffffff
  blackPixel := 0
  rootInputMask := 0
  width := 1024
  height := 768
  mwidth := 270
  mheight := 203
  minMaps := 1
  maxMaps := 1
  rootVisual := ⟨33, 4, 0xff0000, 0xff00, 0xff, 8, 256⟩
  backingStore := 0
  saveUnders := 0
  rootDepth := 24
  depths := [⟨24, [⟨33, 4, 0xff0000, 0xff00, 0xff, 8, 256⟩]⟩, ⟨1, []⟩]

def twoHeads : Display where
  protoMajorVersion := 11
  protoMinorVersion := 0
  release := 12
  resourceBase := 0x200000
  resourceMask := 0x1fffff
  motionBuffer := 256
  vendor := [88]
  maxRequestSize := 0xffff
  byteOrder := 0
  bitmapBitOrder := 0
  bitmapUnit := 32
  bitmapPad := 32
  minKeycode := 8
  maxKeycode := 255
  pixmapFormat := [⟨24, 32, 32⟩, ⟨1, 1, 32⟩]
  screens := [plainScreen, { plainScreen with root := 3 }]

/-- After the bitmap depth of the first screen there is no piece that the state could name. -/
theorem not_replays_twoHeads : ¬ Replays twoHeads (openDisplay ⟨.stateNone, 0, 0, 0, 0⟩) := by
  intro h
  obtain ⟨c', hreads, -⟩ := h 10
  have hfault : Enumeration.reads (doConsoleRead twoHeads) 10
      (openDisplay ⟨.stateNone, 0, 0, 0, 0⟩) = none := by
    decide
  rw [hfault] at hreads
  cases hreads

end Console
