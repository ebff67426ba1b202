import OsxVlm.Stream.Frame

/-!
# The request line, however it is cut into reads

A client's request is a function of the bytes read from it so far, not of the
pieces they came in: `LineOk` gives every field that depends on the line in
terms of `taken`, and every function of the front end keeps it.
-/

namespace Stream

open Chaos ChaosConnState ClientState

/-! ### The line and what follows it -/

/-- CR or LF. -/
def lineEnd (b : Byte) : Bool := b = 13 || b = 10

/-- The bytes before the first CR or LF. -/
def lineOf (bs : List Byte) : List Byte := bs.takeWhile fun b => !lineEnd b

/-- The bytes after a line that ended with `b`: the LF of a CRLF belongs to the
line. -/
def afterEnd (b : Byte) (rest : List Byte) : List Byte :=
  if b = 13 ∧ rest.head? = some 10 then rest.tail else rest

/-- The bytes after the first CR, LF or CRLF. -/
def afterLine (bs : List Byte) : List Byte :=
  match bs.dropWhile fun b => !lineEnd b with
  | [] => []
  | b :: rest => afterEnd b rest

/-- The request in the bytes read so far: a complete line that fits. -/
def requestOf (bs : List Byte) : Option (List Byte) :=
  if bs.any lineEnd ∧ (lineOf bs).length < streamLineMax then some (lineOf bs) else none

/-- No byte of `bs` ends a line. -/
def NoEnd (bs : List Byte) : Prop := ∀ b ∈ bs, lineEnd b = false

theorem NoEnd.snoc {bs : List Byte} (h : NoEnd bs) {b : Byte} (hb : lineEnd b = false) :
    NoEnd (bs ++ [b]) := by
  intro x hx
  rcases List.mem_append.mp hx with hx | hx
  · exact h x hx
  · rw [List.mem_singleton.mp hx]
    exact hb

theorem lineOf_append {l : List Byte} (h : NoEnd l) (bs : List Byte) :
    lineOf (l ++ bs) = l ++ lineOf bs := by
  unfold lineOf
  rw [List.takeWhile_append_of_pos]
  intro b hb
  simp [h b hb]

theorem lineOf_complete {l : List Byte} (h : NoEnd l) {b : Byte} (hb : lineEnd b = true)
    (rest : List Byte) : lineOf (l ++ b :: rest) = l := by
  rw [lineOf_append h]
  simp [lineOf, hb]

theorem afterLine_complete {l : List Byte} (h : NoEnd l) {b : Byte} (hb : lineEnd b = true)
    (rest : List Byte) : afterLine (l ++ b :: rest) = afterEnd b rest := by
  have hdrop : (l ++ b :: rest).dropWhile (fun b => !lineEnd b) = b :: rest := by
    rw [List.dropWhile_append_of_pos (fun x hx => by simp [h x hx]),
      List.dropWhile_cons_of_neg (by simp [hb])]
  rw [afterLine, hdrop]

theorem requestOf_partial {l : List Byte} (h : NoEnd l) : requestOf l = none := by
  have hany : l.any lineEnd = false := by
    rw [List.any_eq_false]
    intro b hb
    simp [h b hb]
  simp [requestOf, hany]

theorem requestOf_complete {l : List Byte} (h : NoEnd l) {b : Byte} (hb : lineEnd b = true)
    (rest : List Byte) (hlen : l.length < streamLineMax) :
    requestOf (l ++ b :: rest) = some l := by
  have hany : (l ++ b :: rest).any lineEnd = true := by simp [hb]
  rw [requestOf, lineOf_complete h hb, if_pos ⟨hany, hlen⟩]

theorem requestOf_tooLong {bs : List Byte} (h : streamLineMax ≤ (lineOf bs).length) :
    requestOf bs = none :=
  if_neg fun hgo => Nat.not_lt.mpr h hgo.2

/-! ### What a client knows of its line -/

/-- The line ended with `b`, and `rest` was read after it. -/
structure Complete (hosts : List StreamHost) (myAddr : UShort) (k : StreamClient)
    (l : List Byte) (b : Byte) (rest : List Byte) : Prop where
  taken : k.taken = l ++ b :: rest
  noEnd : NoEnd l
  isEnd : lineEnd b = true
  fits : l.length < streamLineMax
  request : k.request = some l
  answer : k.answer = some (parseRequest hosts myAddr l)
  placed : k.placed = afterEnd b rest
  skipLf : k.skipLf = true ↔ b = 13 ∧ rest = []
  state : k.state = clientWaitOpn ∨ k.state = clientStream ∨ k.state = clientDrain
  /-- Only an accepted request gets on. -/
  accepted : k.state ≠ clientDrain → ∃ contact,
    parseRequest hosts myAddr l = .ok (k.addr, contact)

/-- Every client's fields follow from the bytes read from it. -/
inductive LineOk (hosts : List StreamHost) (myAddr : UShort) (k : StreamClient) : Prop
  | free (state : k.state = clientFree) (taken : k.taken = []) (request : k.request = none)
      (answer : k.answer = none) (placed : k.placed = [])
  | reading (state : k.state = clientLine) (line : k.taken = k.line) (noEnd : NoEnd k.line)
      (fits : k.line.length < streamLineMax) (request : k.request = none)
      (answer : k.answer = none) (placed : k.placed = [])
  | tooLong (state : k.state = clientDrain) (long : streamLineMax ≤ (lineOf k.taken).length)
      (request : k.request = none) (answer : k.answer = none) (placed : k.placed = [])
  | complete (l : List Byte) (b : Byte) (rest : List Byte)
      (asked : Complete hosts myAddr k l b rest)

/-- Moreover the input buffer holds the end of what was put into it. -/
structure LineFit (hosts : List StreamHost) (myAddr : UShort) (k : StreamClient) : Prop where
  ok : LineOk hosts myAddr k
  buffered : k.inBuf <:+ k.placed

/-- The fields that depend on the line are unchanged; the client moves on. -/
structure LineSame (k k' : StreamClient) : Prop where
  taken : k'.taken = k.taken
  line : k'.line = k.line
  request : k'.request = k.request
  answer : k'.answer = k.answer
  placed : k'.placed = k.placed
  skipLf : k'.skipLf = k.skipLf
  addr : k'.addr = k.addr
  inBuf : k'.inBuf <:+ k.inBuf
  state : k'.state = k.state ∨ (k.state = clientWaitOpn ∨ k.state = clientStream) ∧
    (k'.state = clientStream ∨ k'.state = clientDrain)

theorem LineSame.refl (k : StreamClient) : LineSame k k :=
  ⟨rfl, rfl, rfl, rfl, rfl, rfl, rfl, List.suffix_rfl, Or.inl rfl⟩

theorem LineSame.lineOk {hosts : List StreamHost} {myAddr : UShort} {k k' : StreamClient}
    (h : LineSame k k') (hk : LineOk hosts myAddr k) : LineOk hosts myAddr k' := by
  have hkeep : k.state ≠ clientWaitOpn → k.state ≠ clientStream → k'.state = k.state := by
    intro hwait hstream
    rcases h.state with hsame | ⟨hw | hs, -⟩
    · exact hsame
    · exact absurd hw hwait
    · exact absurd hs hstream
  cases hk with
  | free state taken request answer placed =>
      refine .free ?_ (h.taken.trans taken) (h.request.trans request) (h.answer.trans answer)
        (h.placed.trans placed)
      rw [hkeep (by simp [state]) (by simp [state]), state]
  | reading state line noEnd fits request answer placed =>
      refine .reading ?_ ?_ ?_ ?_ (h.request.trans request) (h.answer.trans answer)
        (h.placed.trans placed)
      · rw [hkeep (by simp [state]) (by simp [state]), state]
      · rw [h.taken, h.line, line]
      · rwa [h.line]
      · rwa [h.line]
  | tooLong state long request answer placed =>
      refine .tooLong ?_ ?_ (h.request.trans request) (h.answer.trans answer)
        (h.placed.trans placed)
      · rw [hkeep (by simp [state]) (by simp [state]), state]
      · rwa [h.taken]
  | complete l b rest asked =>
      refine .complete l b rest { asked with
        taken := h.taken.trans asked.taken, request := h.request.trans asked.request
        answer := h.answer.trans asked.answer, placed := h.placed.trans asked.placed
        skipLf := by rw [h.skipLf]; exact asked.skipLf, state := ?_, accepted := ?_ }
      · rcases h.state with hsame | ⟨-, hs | hd⟩
        · rw [hsame]
          exact asked.state
        · exact Or.inr (Or.inl hs)
        · exact Or.inr (Or.inr hd)
      · intro hne
        rw [h.addr]
        refine asked.accepted fun hdrain => hne ?_
        rw [hkeep (by simp [hdrain]) (by simp [hdrain]), hdrain]

theorem LineSame.lineFit {hosts : List StreamHost} {myAddr : UShort} {k k' : StreamClient}
    (h : LineSame k k') (hk : LineFit hosts myAddr k) : LineFit hosts myAddr k' := by
  refine ⟨h.lineOk hk.ok, ?_⟩
  rw [h.placed]
  exact h.inBuf.trans hk.buffered

/-- A free slot. -/
theorem lineFit_free (hosts : List StreamHost) (myAddr : UShort) : LineFit hosts myAddr {} :=
  ⟨.free rfl rfl rfl rfl rfl, List.suffix_rfl⟩

/-- What the line says about `k` it says about `k'`. -/
def KeepsLine (k k' : StreamClient) : Prop :=
  ∀ hosts myAddr, LineFit hosts myAddr k → LineFit hosts myAddr k'

theorem LineSame.keepsLine {k k' : StreamClient} (h : LineSame k k') : KeepsLine k k' :=
  fun _ _ hk => h.lineFit hk

theorem KeepsLine.refl (k : StreamClient) : KeepsLine k k := fun _ _ h => h

theorem KeepsLine.trans {a b c : StreamClient} (h1 : KeepsLine a b) (h2 : KeepsLine b c) :
    KeepsLine a c := fun hosts myAddr h => h2 hosts myAddr (h1 hosts myAddr h)

section Service

variable (s : StreamServer) (i : Fin streamMaxClients) (results : List WriteResult)
  (nowMs : Millis)

theorem clientClose_client (reason : List Byte) :
    (clientClose s i reason nowMs).clients i = {} := by
  rw [clientClose, clients_setClient]

theorem clientClose_keepsLine (reason : List Byte) :
    KeepsLine (s.clients i) ((clientClose s i reason nowMs).clients i) := by
  rw [clientClose_client]
  exact fun hosts myAddr _ => lineFit_free hosts myAddr

/-- `client_write` closes the client or leaves all but `out` and `written`. -/
theorem clientWrite_client : (clientWrite s i results nowMs).2 = false ∧
      (clientWrite s i results nowMs).1.clients i = {} ∨
    (clientWrite s i results nowMs).2 = true ∧
      (clientWrite s i results nowMs).1.clients i = { s.clients i with
        out := (writeLoop results (s.clients i).out).2.1
        written := (s.clients i).written ++ (writeLoop results (s.clients i).out).1 } := by
  unfold clientWrite
  dsimp only
  split
  · exact Or.inl ⟨rfl, clientClose_client _ _ _ _⟩
  · exact Or.inr ⟨rfl, clients_setClient _ _ _⟩

theorem clientWrite_keepsLine :
    KeepsLine (s.clients i) ((clientWrite s i results nowMs).1.clients i) := by
  rcases clientWrite_client s i results nowMs with ⟨-, hclient⟩ | ⟨-, hclient⟩
  · rw [hclient]
    exact fun hosts myAddr _ => lineFit_free hosts myAddr
  · rw [hclient]
    exact LineSame.keepsLine ⟨rfl, rfl, rfl, rfl, rfl, rfl, rfl, List.suffix_rfl, Or.inl rfl⟩

theorem serviceSend_same : LineSame (s.clients i) ((serviceSend s i nowMs).clients i) := by
  unfold serviceSend
  dsimp only
  split
  · have hdrop := List.drop_suffix
      (chaosSend s.core (s.clients i).conn (s.clients i).inBuf nowMs).1 (s.clients i).inBuf
    rw [clients_setClient]
    exact ⟨rfl, rfl, rfl, rfl, rfl, rfl, rfl, hdrop, Or.inl rfl⟩
  · exact .refl _

theorem serviceFinish_same : LineSame (s.clients i) ((serviceFinish s i nowMs).clients i) := by
  unfold serviceFinish
  dsimp only
  split
  · rw [clients_setClient]
    exact ⟨rfl, rfl, rfl, rfl, rfl, rfl, rfl, List.suffix_rfl, Or.inl rfl⟩
  · exact .refl _

theorem serviceRecv_same : LineSame (s.clients i) ((serviceRecv s i nowMs).clients i) := by
  unfold serviceRecv
  dsimp only
  split
  · rw [clients_setClient]
    exact ⟨rfl, rfl, rfl, rfl, rfl, rfl, rfl, List.suffix_rfl, Or.inl rfl⟩
  · exact .refl _

theorem serviceShut_same : LineSame (s.clients i) ((serviceShut s i).clients i) := by
  unfold serviceShut
  dsimp only
  split
  · rw [clients_setClient]
    exact ⟨rfl, rfl, rfl, rfl, rfl, rfl, rfl, List.suffix_rfl, Or.inl rfl⟩
  · exact .refl _

theorem serviceDrain_keepsLine :
    KeepsLine (s.clients i) ((serviceDrain s i results nowMs).clients i) := by
  have hwrite := clientWrite_keepsLine s i results nowMs
  unfold serviceDrain
  dsimp only
  split
  · exact hwrite.trans (clientClose_keepsLine _ i _ _)
  · exact hwrite

theorem serviceStream_keepsLine :
    KeepsLine (s.clients i) ((serviceStream s i results nowMs).clients i) := by
  have hsend := (serviceSend_same s i nowMs).keepsLine
  have hfinish := hsend.trans (serviceFinish_same _ i nowMs).keepsLine
  have hrecv := hfinish.trans (serviceRecv_same _ i nowMs).keepsLine
  have hwrite := hrecv.trans (clientWrite_keepsLine _ i results nowMs)
  unfold serviceStream
  dsimp only
  split
  · have hshut := hwrite.trans (serviceShut_same _ i).keepsLine
    split
    · exact hshut.trans (clientClose_keepsLine _ i _ _)
    · exact hshut
  · exact hwrite

theorem closedLine_same (k : StreamClient) (conn : ChaosConn) :
    LineSame k (closedLine k conn) := by
  unfold closedLine
  split <;> exact ⟨rfl, rfl, rfl, rfl, rfl, rfl, rfl, List.suffix_rfl, Or.inl rfl⟩

theorem serviceWait_keepsLine (hwait : (s.clients i).state = clientWaitOpn) :
    KeepsLine (s.clients i) ((serviceWait s i results nowMs).clients i) := by
  unfold serviceWait
  dsimp only
  split
  · refine KeepsLine.trans ?_ (serviceDrain_keepsLine _ i results nowMs)
    rw [clients_setClient]
    exact LineSame.keepsLine ⟨rfl, rfl, rfl, rfl, rfl, rfl, rfl, List.suffix_rfl,
      Or.inr ⟨Or.inl hwait, Or.inr rfl⟩⟩
  · next h hhandle =>
    split
    · refine KeepsLine.trans ?_ (serviceStream_keepsLine _ i results nowMs)
      rw [clients_setClient]
      exact LineSame.keepsLine
        ⟨rfl, rfl, rfl, rfl, rfl, rfl, rfl, List.suffix_rfl, Or.inr ⟨Or.inl hwait, Or.inl rfl⟩⟩
    · split
      · refine KeepsLine.trans ?_ (serviceDrain_keepsLine _ i results nowMs)
        have hline := closedLine_same (s.clients i) (s.core.conns h)
        have hsame : (releaseConn (s.setClient i (closedLine (s.clients i) (s.core.conns h))) i []
            nowMs).clients i = closedLine (s.clients i) (s.core.conns h) := clients_setClient _ _ _
        rw [clients_setClient, hsame]
        exact LineSame.keepsLine { hline with state := Or.inr ⟨Or.inl hwait, Or.inr rfl⟩ }
      · exact .refl _

theorem clientService_keepsLine :
    KeepsLine (s.clients i) ((clientService s i results nowMs).clients i) := by
  unfold clientService
  dsimp only
  split
  · next hwait => exact serviceWait_keepsLine s i results nowMs hwait
  · next hstream =>
    split
    · refine KeepsLine.trans ?_ (serviceDrain_keepsLine _ i results nowMs)
      rw [clients_setClient]
      exact LineSame.keepsLine
        ⟨rfl, rfl, rfl, rfl, rfl, rfl, rfl, List.suffix_rfl, Or.inr ⟨Or.inr hstream, Or.inr rfl⟩⟩
    · exact serviceStream_keepsLine s i results nowMs
  · exact serviceDrain_keepsLine s i results nowMs
  · exact .refl _

end Service

/-! ### Reads -/

section Read

variable {s : StreamServer} {i : Fin streamMaxClients} {nowMs : Millis}

/-- What `handle_request` makes of the line, in the client's record. -/
structure Handled (s : StreamServer) (k k' : StreamClient) : Prop where
  taken : k'.taken = k.taken
  placed : k'.placed = k.placed
  inBuf : k'.inBuf = k.inBuf
  skipLf : k'.skipLf = k.skipLf
  request : k'.request = some k.line
  answer : k'.answer = some (parseRequest s.hosts s.core.myAddr k.line)
  state : k'.state = clientWaitOpn ∨ k'.state = clientDrain
  accepted : k'.state ≠ clientDrain → ∃ contact,
    parseRequest s.hosts s.core.myAddr k.line = .ok (k'.addr, contact)

theorem handleRequest_client (s : StreamServer) (i : Fin streamMaxClients) (nowMs : Millis) :
    Handled s (s.clients i) ((handleRequest s i nowMs).clients i) := by
  unfold handleRequest
  dsimp only
  split
  · next text hanswer =>
    rw [clients_setClient]
    exact ⟨rfl, rfl, rfl, rfl, rfl, by rw [hanswer]; rfl, Or.inr rfl, fun hne => absurd rfl hne⟩
  · next addr contact hanswer =>
    split
    · rw [clients_setClient]
      exact ⟨rfl, rfl, rfl, rfl, rfl, by rw [hanswer]; rfl, Or.inr rfl, fun hne => absurd rfl hne⟩
    · rw [clients_setClient]
      exact ⟨rfl, rfl, rfl, rfl, rfl, by rw [hanswer], Or.inl rfl, fun _ => ⟨contact, hanswer⟩⟩

theorem lineEnd_iff (b : Byte) : lineEnd b = true ↔ b = 13 ∨ b = 10 := by
  simp [lineEnd]

/-- The end of the line keeps the rest of the read for the stream. -/
theorem endLine_spec {k : StreamClient} (b : Byte) {buf : List Byte}
    (hfits : buf.length ≤ streamInbuf) (hplaced : k.placed = []) (hinBuf : k.inBuf = []) :
    (endLine k b buf).placed = afterEnd b buf ∧
      (endLine k b buf).inBuf = (endLine k b buf).placed ∧
      ((endLine k b buf).skipLf = true ↔ b = 13 ∧ buf = []) := by
  unfold endLine
  rw [← afterEnd]
  have hlen : (afterEnd b buf).length ≤ streamInbuf := by
    unfold afterEnd
    split
    · rw [List.length_tail]
      omega
    · exact hfits
  dsimp only
  split
  · next hrest =>
    refine ⟨List.take_of_length_le hlen, rfl, ?_⟩
    constructor
    · nofun
    · rintro ⟨rfl, rfl⟩
      exact absurd rfl hrest
  · next hrest =>
    rw [not_not] at hrest
    refine ⟨hplaced.trans hrest.symm, hinBuf.trans hplaced.symm, ?_⟩
    unfold afterEnd at hrest
    split at hrest
    · next hlf =>
      rw [Bool.and_eq_true, decide_eq_true_iff, decide_eq_true_iff]
      constructor
      · rintro ⟨-, hne⟩
        exact absurd hlf.2 hne
      · rintro ⟨-, rfl⟩
        cases hlf.2
    · subst hrest
      simp

/-- **The loop of `line_input`** reads the line off the bytes. -/
theorem lineInput_lineFit {k : StreamClient} {buf : List Byte}
    (hclient : s.clients i = k) (hstate : k.state = clientLine)
    (htaken : k.taken = k.line ++ buf) (hnoEnd : NoEnd k.line)
    (hfits : k.line.length < streamLineMax) (hrequest : k.request = none)
    (hanswer : k.answer = none) (hplaced : k.placed = []) (hinBuf : k.inBuf = [])
    (hlen : buf.length ≤ streamInbuf) :
    LineFit s.hosts s.core.myAddr ((lineInput s i nowMs buf).clients i) := by
  induction buf generalizing s k with
  | nil =>
      rw [lineInput, hclient]
      refine ⟨.reading hstate (by simpa using htaken) hnoEnd hfits hrequest hanswer hplaced, ?_⟩
      rw [hinBuf]
      exact List.nil_suffix
  | cons b buf ih =>
      rw [List.length_cons] at hlen
      unfold lineInput
      dsimp only
      rw [hclient]
      split
      · next hend =>
        have hspec := endLine_spec (k := k) b (show buf.length ≤ streamInbuf by omega)
          hplaced hinBuf
        have hline : (endLine k b buf).line = k.line := by rw [endLine_eq]
        have htaken' : (endLine k b buf).taken = k.taken := by rw [endLine_eq]
        have hreq := handleRequest_client (s.setClient i (endLine k b buf)) i nowMs
        rw [clients_setClient] at hreq
        generalize (handleRequest (s.setClient i (endLine k b buf)) i nowMs).clients i = k' at hreq ⊢
        refine ⟨.complete k.line b buf
          { taken := hreq.taken.trans (htaken'.trans htaken), noEnd := hnoEnd
            isEnd := (lineEnd_iff b).mpr hend, fits := hfits
            request := hline ▸ hreq.request, answer := hline ▸ hreq.answer
            placed := hreq.placed.trans hspec.1, skipLf := by rw [hreq.skipLf]; exact hspec.2.2
            state := ?_, accepted := hline ▸ hreq.accepted }, ?_⟩
        · rcases hreq.state with hw | hd
          · exact Or.inl hw
          · exact Or.inr (Or.inr hd)
        · rw [hreq.inBuf, hreq.placed, hspec.2.1]
      · next hend =>
        have hb : lineEnd b = false := by
          rw [← Bool.not_eq_true, lineEnd_iff]
          exact hend
        split
        · next hlong =>
          rw [clients_setClient]
          refine ⟨.tooLong rfl ?_ hrequest hanswer hplaced, ?_⟩
          · show streamLineMax ≤ (lineOf k.taken).length
            rw [htaken, lineOf_append hnoEnd, List.length_append]
            have hcons : lineOf (b :: buf) = b :: lineOf buf := by simp [lineOf, hb]
            rw [hcons, List.length_cons]
            omega
          · show k.inBuf <:+ k.placed
            rw [hinBuf]
            exact List.nil_suffix
        · next hlong =>
          refine ih (s := s.setClient i { k with line := k.line ++ [b] })
            (clients_setClient _ _ _) hstate ?_ (hnoEnd.snoc hb) ?_ hrequest hanswer hplaced
            hinBuf (by omega)
          · show k.taken = k.line ++ [b] ++ buf
            rw [htaken, List.append_assoc]
            rfl
          · show (k.line ++ [b]).length < streamLineMax
            rw [List.length_append, List.length_singleton]
            omega

/-- Bytes read later go on after those before them. -/
theorem afterEnd_append (b : Byte) (rest buf : List Byte) (hskip : ¬ (b = 13 ∧ rest = [])) :
    afterEnd b (rest ++ buf) = afterEnd b rest ++ buf := by
  unfold afterEnd
  cases rest with
  | nil =>
      have hb : b ≠ 13 := fun heq => hskip ⟨heq, rfl⟩
      rw [if_neg fun h => hb h.1, if_neg fun h => hb h.1]
  | cons x rest =>
      have hhead : (x :: rest ++ buf).head? = (x :: rest).head? := rfl
      by_cases hlf : b = 13 ∧ (x :: rest).head? = some 10
      · rw [if_pos (hhead ▸ hlf), if_pos hlf]
        rfl
      · rw [if_neg (hhead ▸ hlf), if_neg hlf]

theorem Complete.streamInput {hosts : List StreamHost} {myAddr : UShort} {k : StreamClient}
    {l : List Byte} {b : Byte} {rest buf : List Byte} (hk : Complete hosts myAddr k l b rest)
    (hbuf : buf ≠ []) : Complete hosts myAddr
      (streamInput { k with taken := k.taken ++ buf } buf) l b (rest ++ buf) := by
  refine { hk with taken := ?_, placed := ?_, skipLf := ?_ }
  · show k.taken ++ buf = _
    rw [hk.taken, List.append_assoc]
    rfl
  · show k.placed ++ (if k.skipLf = true ∧ buf.head? = some 10 then buf.tail else buf) = _
    rw [hk.placed]
    by_cases hskip : b = 13 ∧ rest = []
    · have hlf := hk.skipLf.mpr hskip
      obtain ⟨rfl, rfl⟩ := hskip
      simp [afterEnd, hlf]
    · have hlf : ¬ k.skipLf = true := fun h => hskip (hk.skipLf.mp h)
      rw [afterEnd_append b rest buf hskip, if_neg fun h => hlf h.1]
  · constructor
    · nofun
    · rintro ⟨-, hnil⟩
      exact absurd (List.append_eq_nil_iff.mp hnil).2 hbuf

/-- The states in which `client_read` is called. -/
def Readable (k : StreamClient) : Prop :=
  k.state = clientLine ∨ k.state = clientWaitOpn ∨ k.state = clientStream

theorem clientTake_lineFit (hk : LineFit s.hosts s.core.myAddr (s.clients i))
    (hstate : Readable (s.clients i)) {buf : List Byte} (hbuf : buf ≠ [])
    (hlen : buf.length ≤ streamInbuf) :
    LineFit s.hosts s.core.myAddr ((clientTake s i buf nowMs).clients i) := by
  unfold clientTake
  dsimp only
  split
  · next hline =>
    cases hk.ok with
    | free state => simp [state] at hline
    | reading state line noEnd fits request answer placed =>
        have hinBuf : (s.clients i).inBuf = [] := by
          have hsuffix := hk.buffered
          rw [placed] at hsuffix
          exact List.suffix_nil.mp hsuffix
        refine lineInput_lineFit (s := s.setClient i _) (clients_setClient _ _ _) hline ?_ noEnd
          fits request answer placed hinBuf hlen
        show (s.clients i).taken ++ buf = (s.clients i).line ++ buf
        rw [line]
    | tooLong state => simp [state] at hline
    | complete l b rest asked => rcases asked.state with h | h | h <;> simp [h] at hline
  · next hline =>
    rw [clients_setClient]
    cases hk.ok with
    | free state => rcases hstate with h | h | h <;> simp [state] at h
    | reading state => exact absurd state hline
    | tooLong state => rcases hstate with h | h | h <;> simp [state] at h
    | complete l b rest asked =>
        refine ⟨.complete l b (rest ++ buf) (asked.streamInput hbuf), ?_⟩
        obtain ⟨pre, hpre⟩ := hk.buffered
        refine ⟨pre, ?_⟩
        show pre ++ ((s.clients i).inBuf ++ _) = (s.clients i).placed ++ _
        rw [← hpre, List.append_assoc]

theorem clientRead_lineFit (hk : LineFit s.hosts s.core.myAddr (s.clients i))
    (hstate : Readable (s.clients i)) (result : ReadResult) :
    LineFit s.hosts s.core.myAddr ((clientRead s i result nowMs).clients i) := by
  have hwant : readWant (s.clients i) ≤ streamInbuf := by
    unfold readWant
    split
    · decide
    · exact Nat.sub_le _ _
  unfold clientRead
  dsimp only
  split
  · exact hk
  cases result with
  | again => exact hk
  | failed => exact clientClose_keepsLine s i nowMs _ _ _ hk
  | got buf =>
      dsimp only
      split
      · split
        · exact clientClose_keepsLine s i nowMs _ _ _ hk
        · have hsame : LineSame (s.clients i) { s.clients i with sockEof := true } :=
            ⟨rfl, rfl, rfl, rfl, rfl, rfl, rfl, List.suffix_rfl, Or.inl rfl⟩
          rw [clients_setClient]
          exact hsame.lineFit hk
      · next hbuf =>
        refine clientTake_lineFit hk hstate hbuf ?_
        rw [List.length_take]
        omega

/-- A client is read from only when `POLLIN` was asked for. -/
theorem clientPoll_lineFit (hs : Reachable s.core)
    (hk : LineFit s.hosts s.core.myAddr (s.clients i)) {asked : Bool × Bool}
    (hasked : asked.1 = true → Readable (s.clients i)) (io : ClientIo) :
    LineFit s.hosts s.core.myAddr ((clientPoll s i asked io nowMs).clients i) := by
  unfold clientPoll
  split
  · exact hk
  dsimp only
  generalize hr : (if (asked.2 && (io.pollOut || io.pollHup || io.pollErr)) = true then
    clientWrite s i io.results nowMs else (s, true)) = r
  have hwrite : LineFit s.hosts s.core.myAddr (r.1.clients i) ∧
      (r.2 = true → (r.1.clients i).state = (s.clients i).state) ∧
      r.1.hosts = s.hosts ∧ r.1.core.myAddr = s.core.myAddr := by
    rw [← hr]
    split
    · have hframe := clientWrite_frame (i := i) hs io.results nowMs
      refine ⟨clientWrite_keepsLine s i io.results nowMs _ _ hk, ?_, hframe.hosts, hframe.myAddr⟩
      rcases clientWrite_client s i io.results nowMs with ⟨hfalse, -⟩ | ⟨-, hclient⟩
      · rw [hfalse]
        nofun
      · rw [hclient]
        exact fun _ => rfl
    · exact ⟨hk, fun _ => rfl, rfl, rfl⟩
  obtain ⟨hfit, hstate, hhosts, haddr⟩ := hwrite
  split
  · next hgo =>
    split
    · next hread =>
      have hready : Readable (r.1.clients i) := by
        unfold Readable
        rw [hstate (Bool.and_eq_true _ _ ▸ hgo).1]
        exact hasked hread
      rw [← hhosts, ← haddr] at hfit ⊢
      exact clientRead_lineFit hfit hready io.result
    · split
      · exact clientClose_keepsLine r.1 i nowMs _ _ _ hfit
      · exact hfit
  · exact hfit

end Read

/-! ### Runs -/

/-- Every client's fields follow from the bytes read from it. -/
def LinesFit (s : StreamServer) : Prop :=
  Reachable s.core ∧ ∀ i, LineFit s.hosts s.core.myAddr (s.clients i)

theorem LinesFit.client {s s' : StreamServer} {i : Fin streamMaxClients} (h : LinesFit s)
    (hframe : ClientFrame i s s') (hi : LineFit s.hosts s.core.myAddr (s'.clients i)) :
    LinesFit s' := by
  refine ⟨hframe.reachable, fun j => ?_⟩
  rw [hframe.hosts, hframe.myAddr]
  by_cases hj : j = i
  · rw [hj]
    exact hi
  · rw [hframe.others j hj]
    exact h.2 j

theorem LinesFit.service {s : StreamServer} (h : LinesFit s)
    (results : Fin streamMaxClients → List WriteResult) (nowMs : Millis) :
    LinesFit (streamService s results nowMs) :=
  (eachClient_invariant (I := LinesFit)
    (fun _ i ht => clientService_frame ht (results i) nowMs)
    (fun t i ht hI _ _ => hI.client (clientService_frame ht (results i) nowMs)
      (clientService_keepsLine t i (results i) nowMs _ _ (hI.2 i))) h.1 h).2

theorem LinesFit.adopt {s : StreamServer} (h : LinesFit s) : LinesFit (streamAdopt s) := by
  rcases streamAdopt_cases s with hsame | ⟨i, -, hset⟩
  · rwa [hsame]
  · rw [hset]
    refine h.client (.setClient h.1 (Or.inr rfl)) ?_
    rw [clients_setClient]
    exact ⟨.reading rfl rfl (fun b hb => by cases hb) (by decide) rfl rfl rfl, List.suffix_rfl⟩

theorem readable_of_wantsRead {s : StreamServer} {i : Fin streamMaxClients}
    (h : wantsRead s i = true) : Readable (s.clients i) := by
  unfold wantsRead at h
  dsimp only at h
  split at h
  · next hstate => exact Or.inl hstate
  · next hstate => exact Or.inr (Or.inl hstate)
  · next hstate => exact Or.inr (Or.inr hstate)
  · cases h

theorem LinesFit.poll {s : StreamServer} (h : LinesFit s)
    (io : Fin streamMaxClients → ClientIo) (nowMs : Millis) :
    LinesFit (s.eachClient fun t i =>
      clientPoll t i (wantsRead s i, wantsWrite s i) (io i) nowMs) :=
  (eachClient_invariant (I := LinesFit)
    (fun _ i ht => clientPoll_frame ht (wantsRead s i, wantsWrite s i) (io i) nowMs)
    (fun _ i ht hI hsame _ => hI.client (clientPoll_frame ht _ (io i) nowMs)
      (clientPoll_lineFit ht (hI.2 i)
        (fun hread => hsame ▸ readable_of_wantsRead hread) (io i))) h.1 h).2

/-- **Step lemma of the request line.** -/
theorem LinesFit.step {s : StreamServer} (h : LinesFit s) (e : StreamEvent) :
    LinesFit (serverStep s e) := by
  have hcore : ∀ ce : CoreEvent, LinesFit { s with core := coreStep s.core ce } := by
    intro ce
    refine ⟨h.1.step ce, fun i => ?_⟩
    show LineFit s.hosts (coreStep s.core ce).myAddr (s.clients i)
    rw [coreStep_myAddr h.1.coreOk ce]
    exact h.2 i
  unfold serverStep
  split
  · next frame hcall => exact hcore ⟨.input frame, e.nowMs⟩
  · exact hcore ⟨.tick, e.nowMs⟩
  · next results hcall => exact h.service results e.nowMs
  · next io accepted results hcall =>
    refine LinesFit.service ?_ results e.nowMs
    exact Function.Iterate.rec LinesFit (h.poll io e.nowMs) (fun _ ht => ht.adopt) accepted

theorem ReachableServer.linesFit {s : StreamServer} (hs : ReachableServer s) : LinesFit s := by
  obtain ⟨myAddr, myMac, hostName, localWindow, initialPktNum, hosts, es, rfl⟩ := hs
  refine Exec.run_invariant (A := fun _ _ => True) (fun t e _ ht => ht.step e)
    (Exec.allowed_of_forall fun _ _ _ => trivial) ⟨?_, fun i => lineFit_free _ _⟩
  exact ⟨myAddr, myMac, hostName, localWindow, initialPktNum, [], rfl⟩

/-- What a client's request is, from the bytes read from it. -/
structure RequestLaw (hosts : List StreamHost) (myAddr : UShort) (k : StreamClient) : Prop where
  /-- The line is the bytes before the first CR or LF, if there is one and it fits. -/
  request : k.request = requestOf k.taken
  /-- It is refused with a text, or opens a contact at an address. -/
  answer : k.answer = (requestOf k.taken).map (parseRequest hosts myAddr)
  /-- What follows the line, and no LF of its CRLF, went to the input buffer. -/
  placed : k.placed = if k.request = none then [] else afterLine k.taken
  buffered : k.inBuf <:+ k.placed
  /-- Without a request the client is still sending its line, or it was too long. -/
  unasked : k.request = none → k.state = clientFree ∨
    k.state = clientLine ∧ k.taken = k.line ∧ NoEnd k.taken ∧ k.taken.length < streamLineMax ∨
    k.state = clientDrain ∧ streamLineMax ≤ (lineOf k.taken).length
  /-- A refused client gets no further; an accepted one has asked for its address. -/
  refused : ∀ text, k.answer = some (.error text) → k.state = clientDrain
  accepted : k.state = clientWaitOpn ∨ k.state = clientStream →
    ∃ contact, k.answer = some (.ok (k.addr, contact))

theorem LineFit.law {hosts : List StreamHost} {myAddr : UShort} {k : StreamClient}
    (h : LineFit hosts myAddr k) : RequestLaw hosts myAddr k := by
  cases h.ok with
  | free state taken request answer placed =>
      have hnone : requestOf k.taken = none := by
        rw [taken]
        rfl
      refine ⟨request.trans hnone.symm, by rw [answer, hnone]; rfl, by rw [placed, if_pos request],
        h.buffered, fun _ => Or.inl state, fun _ ht => ?_, ?_⟩
      · rw [answer] at ht
        cases ht
      · rintro (hs | hs) <;> simp [state] at hs
  | reading state line noEnd fits request answer placed =>
      have hnone : requestOf k.taken = none := by
        rw [line]
        exact requestOf_partial noEnd
      refine ⟨request.trans hnone.symm, by rw [answer, hnone]; rfl, by rw [placed, if_pos request],
        h.buffered, fun _ => Or.inr (Or.inl ⟨state, line, by rwa [line], by rwa [line]⟩),
        fun _ ht => ?_, ?_⟩
      · rw [answer] at ht
        cases ht
      · rintro (hs | hs) <;> simp [state] at hs
  | tooLong state long request answer placed =>
      have hnone := requestOf_tooLong long
      refine ⟨request.trans hnone.symm, by rw [answer, hnone]; rfl, by rw [placed, if_pos request],
        h.buffered, fun _ => Or.inr (Or.inr ⟨state, long⟩), fun _ ht => ?_, ?_⟩
      · rw [answer] at ht
        cases ht
      · rintro (hs | hs) <;> simp [state] at hs
  | complete l b rest asked =>
      have hsome : requestOf k.taken = some l := by
        rw [asked.taken]
        exact requestOf_complete asked.noEnd asked.isEnd rest asked.fits
      refine ⟨asked.request.trans hsome.symm, by rw [asked.answer, hsome]; rfl, ?_, h.buffered,
        fun hnone => ?_, fun text ht => ?_, fun hs => ?_⟩
      · rw [asked.placed, asked.request, if_neg nofun, asked.taken,
          afterLine_complete asked.noEnd asked.isEnd]
      · rw [asked.request] at hnone
        cases hnone
      · by_contra hne
        obtain ⟨contact, hok⟩ := asked.accepted hne
        rw [asked.answer, hok] at ht
        cases ht
      · have hne : k.state ≠ clientDrain := by rcases hs with h | h <;> rw [h] <;> decide
        obtain ⟨contact, hok⟩ := asked.accepted hne
        exact ⟨contact, by rw [asked.answer, hok]⟩

/-- **The request line is parsed independently of how it is cut into reads.**
Clients from which the same bytes have been read have made the same request,
with the same decision, and the same bytes went on to the stream. -/
theorem request_line_law {s : StreamServer} (hs : ReachableServer s)
    (i : Fin streamMaxClients) : RequestLaw s.hosts s.core.myAddr (s.clients i) ∧
      ∀ s' j, ReachableServer s' → s'.hosts = s.hosts → s'.core.myAddr = s.core.myAddr →
        (s'.clients j).taken = (s.clients i).taken →
        (s'.clients j).request = (s.clients i).request ∧
        (s'.clients j).answer = (s.clients i).answer ∧
        (s'.clients j).placed = (s.clients i).placed := by
  have hlaw := (hs.linesFit.2 i).law
  refine ⟨hlaw, fun s' j hs' hhosts haddr htaken => ?_⟩
  have hlaw' := (hs'.linesFit.2 j).law
  have hrequest : (s'.clients j).request = (s.clients i).request := by
    rw [hlaw'.request, hlaw.request, htaken]
  refine ⟨hrequest, ?_, ?_⟩
  · rw [hlaw'.answer, hlaw.answer, hhosts, haddr, htaken]
  · rw [hlaw'.placed, hlaw.placed, hrequest, htaken]

/-- A request that is sent in one piece. -/
def sentWhole : List StreamEvent :=
  [⟨sampleAccept, 1000⟩, ⟨sampleSends (bytesOf "RFC 405 TELNET" ++ crLf ++ bytesOf "early"), 1010⟩]

/-- The same bytes, with the CRLF cut in two. -/
def sentInPieces : List StreamEvent :=
  [⟨sampleAccept, 1000⟩, ⟨sampleSends (bytesOf "RFC 405"), 1010⟩,
    ⟨sampleSends (bytesOf " TELNET" ++ [13]), 1020⟩, ⟨sampleSends ([10] ++ bytesOf "early"), 1030⟩]

theorem request_line_law_sample :
    ((sampleServer sentInPieces).clients sampleClient).request = some (bytesOf "RFC 405 TELNET") ∧
      ((sampleServer sentInPieces).clients sampleClient).placed = bytesOf "early" ∧
      ((sampleServer sentWhole).clients sampleClient).answer =
        ((sampleServer sentInPieces).clients sampleClient).answer := by
  obtain ⟨hlaw, hsame⟩ := request_line_law (sampleServer_reachable sentInPieces) sampleClient
  have htaken : ((sampleServer sentInPieces).clients sampleClient).taken =
      bytesOf "RFC 405 TELNET" ++ crLf ++ bytesOf "early" := by decide +kernel
  refine ⟨?_, ?_, ?_⟩
  · rw [hlaw.request, htaken]
    decide +kernel
  · rw [hlaw.placed, hlaw.request, htaken]
    decide +kernel
  · exact (hsame _ sampleClient (sampleServer_reachable sentWhole) (by decide +kernel)
      (by decide +kernel) (by decide +kernel)).2.1

end Stream
