import Mathlib
import OsxVlm.Library.Execution
import OsxVlm.Terminal.Screen

/-!
# The size that Genera knows

A session has one login connection at a time; calls overlap where they wait for
the connection or for a write.  What connect asks for is put on the screen when
it is called and on the wire, clamped to a byte, when the connection is up.
-/

namespace Terminal

inductive Message where
  | size (cols rows : Int)
  | logout
  deriving DecidableEq

/-- Each clamped to 1..255. -/
def clamp (n : Int) : Int := max 1 (min 255 n)

def encodeSize (cols rows : Int) : Message := .size (clamp cols) (clamp rows)

/-- The call that issued a send. -/
inductive Purpose where
  | connect
  | resize
  | disconnect
  deriving DecidableEq

structure Send where
  purpose : Purpose
  message : Message
  deriving DecidableEq

/-- A session; connections are numbered as they come up. -/
structure Session where
  screen : Screen
  conn : Option Nat
  opened : Nat
  /-- The sizes of the connects that wait for TCP. -/
  pending : List (Int × Int)
  /-- The sends issued on a connection that are not done, in order. -/
  queue : Nat → List Send
  /-- What was written on a connection. -/
  sent : Nat → List Message
  failed : Nat → Bool
  /-- The calls whose send is settled and that go on to close. -/
  drops : Nat

namespace Session

def new (cols rows : Nat) : Session :=
  { screen := Screen.new cols rows
    conn := none
    opened := 0
    pending := []
    queue := fun _ => []
    sent := fun _ => []
    failed := fun _ => false
    drops := 0 }

/-- The calls, and what they wait for. -/
inductive Event where
  | connect (cols rows : Option Int)
  | connected (i : Nat)
  | refused (i : Nat)
  | written (c : Nat)
  | writeFailed (c : Nat)
  | peerClosed (c : Nat)
  | resize (cols rows : Int)
  | disconnect
  /-- A call goes on after its send and closes the connection. -/
  | goOn

/-- `#send` up to its first wait. -/
def send (s : Session) (purpose : Purpose) (message : Message) : Session :=
  match s.conn with
  | none => s
  | some c =>
      { s with
        queue := fun d => if d = c then s.queue c ++ [⟨purpose, message⟩] else s.queue d }

def drop (s : Session) : Session := { s with conn := none }

def connect (s : Session) (cols rows : Option Int) : Session :=
  match s.conn with
  | some _ => s
  | none =>
      let cols := cols.getD s.screen.cols
      let rows := rows.getD s.screen.rows
      { s with
        screen := (s.screen.resize cols rows).reset
        pending := s.pending ++ [(cols, rows)] }

/-- A waiting connect goes on with its connection. -/
def connected (s : Session) (i : Nat) : Session :=
  match s.pending[i]? with
  | none => s
  | some (cols, rows) =>
      { s with
        pending := s.pending.eraseIdx i
        conn := some s.opened
        opened := s.opened + 1 }.send .connect (encodeSize cols rows)

/-- The oldest send of a connection is settled. -/
def settle (s : Session) (c : Nat) (ok : Bool) : Session :=
  match s.queue c with
  | [] => s
  | x :: xs =>
      { s with
        queue := fun d => if d = c then xs else s.queue d
        sent := fun d => if d = c ∧ ok then s.sent c ++ [x.message] else s.sent d
        failed := fun d => if d = c ∧ !ok then true else s.failed d
        drops :=
          if x.purpose = .disconnect ∨ x.purpose = .connect ∧ !ok then s.drops + 1 else s.drops }

def resize (s : Session) (cols rows : Int) : Session :=
  { s with screen := s.screen.resize (clamp cols) (clamp rows) }.send .resize
    (encodeSize cols rows)

def step (s : Session) : Event → Session
  | .connect cols rows => s.connect cols rows
  | .connected i => s.connected i
  | .refused i => { s with pending := s.pending.eraseIdx i }
  | .written c => s.settle c true
  | .writeFailed c => s.settle c false
  | .peerClosed c => if s.conn = some c then s.drop else s
  | .resize cols rows => s.resize cols rows
  | .disconnect => s.send .disconnect .logout
  | .goOn => if 0 < s.drops then { s with drops := s.drops - 1 }.drop else s

/-- The size carried by the last size message. -/
def lastSize : List Message → Option (Int × Int)
  | [] => none
  | .size cols rows :: ms => (lastSize ms).or (some (cols, rows))
  | .logout :: ms => lastSize ms

def screenSize (s : Session) : Int × Int := (s.screen.cols, s.screen.rows)

/-- When every send on the login connection is done, the last size sent is the
size of the screen. -/
def SizeKnown (s : Session) : Prop :=
  ∀ c, s.conn = some c → s.queue c = [] → s.failed c = false →
    lastSize (s.sent c) = some s.screenSize

/-- A connection comes up for the size that the screen has. -/
def SizeCurrent (s : Session) : Event → Prop
  | .connected i =>
      ∀ cols rows, s.pending[i]? = some (cols, rows) →
        clamp cols = s.screen.cols ∧ clamp rows = s.screen.rows
  | _ => True

theorem lastSize_append (ms : List Message) (m : Message) :
    lastSize (ms ++ [m]) = (lastSize [m]).or (lastSize ms) := by
  induction ms with
  | nil => cases m <;> rfl
  | cons x xs ih =>
      cases x with
      | size cols rows =>
          change (lastSize (xs ++ [m])).or _ = _
          rw [ih, Option.or_assoc]
          rfl
      | logout => exact ih

/-- The last size issued on the login connection is the size of the screen. -/
structure Inv (s : Session) : Prop where
  fresh : ∀ c, s.opened ≤ c → s.queue c = [] ∧ s.sent c = []
  known : ∀ c, s.conn = some c → c < s.opened ∧
    (s.failed c = false → lastSize (s.sent c ++ (s.queue c).map Send.message) =
      some s.screenSize)

theorem Inv.sizeKnown {s : Session} (h : Inv s) : s.SizeKnown := by
  intro c hc hdone hok
  have hlast := (h.known c hc).2 hok
  rw [hdone, List.map_nil, List.append_nil] at hlast
  exact hlast

/-- A connection that is closed has nothing to know. -/
theorem Inv.of_closed {s : Session} (hfresh : ∀ c, s.opened ≤ c → s.queue c = [] ∧ s.sent c = [])
    (hconn : s.conn = none) : Inv s :=
  ⟨hfresh, fun c hc => by rw [hconn] at hc; cases hc⟩

theorem Inv.drop {s : Session} (h : Inv s) : Inv s.drop := .of_closed h.fresh rfl

/-- A send on the login connection, after which the last size issued is that of
the screen. -/
theorem Inv.send {s : Session} {purpose : Purpose} {message : Message}
    (hfresh : ∀ c, s.opened ≤ c → s.queue c = [] ∧ s.sent c = [])
    (hlt : ∀ c, s.conn = some c → c < s.opened)
    (hlast : ∀ c, s.conn = some c → s.failed c = false →
      (lastSize [message]).or (lastSize (s.sent c ++ (s.queue c).map Send.message)) =
        some s.screenSize) : Inv (s.send purpose message) := by
  unfold Session.send
  split
  · next hconn => exact .of_closed hfresh hconn
  · next c hconn =>
      have hc := hlt c hconn
      refine ⟨fun d hd => ?_, fun d hd => ?_⟩
      · dsimp only at hd ⊢
        rw [if_neg (by omega)]
        exact hfresh d hd
      · obtain rfl : c = d := Option.some_inj.mp (hconn.symm.trans hd)
        refine ⟨hc, fun hok => ?_⟩
        dsimp only
        rw [if_pos rfl, List.map_append, ← List.append_assoc, List.map_singleton, lastSize_append]
        exact hlast c hconn hok

theorem Inv.settle {s : Session} (h : Inv s) (c : Nat) (ok : Bool) : Inv (s.settle c ok) := by
  unfold Session.settle
  cases hqueue : s.queue c with
  | nil => exact h
  | cons x xs =>
      have hopen : c < s.opened := by
        by_contra hge
        rw [(h.fresh c (not_lt.mp hge)).1] at hqueue
        cases hqueue
      refine ⟨fun d hd => ?_, fun d hd => ⟨(h.known d hd).1, fun hok => ?_⟩⟩
      · dsimp only at hd ⊢
        rw [if_neg (by omega), if_neg (by omega)]
        exact h.fresh d hd
      · have hknown := (h.known d hd).2
        dsimp only at hok ⊢
        by_cases hdc : d = c
        · subst hdc
          cases ok with
          | false =>
              rw [if_pos ⟨rfl, rfl⟩] at hok
              cases hok
          | true =>
              rw [if_neg (fun hand => by cases hand.2)] at hok
              rw [if_pos rfl, if_pos ⟨rfl, rfl⟩, List.append_assoc]
              rw [hqueue] at hknown
              exact hknown hok
        · rw [if_neg (fun hand => hdc hand.1)] at hok
          rw [if_neg hdc, if_neg (fun hand => hdc hand.1)]
          exact hknown hok

theorem Inv.step {s : Session} (h : Inv s) (e : Event) (hok : s.SizeCurrent e) :
    Inv (s.step e) := by
  cases e with
  | connect cols rows =>
      unfold Session.step Session.connect
      dsimp only
      split
      · exact h
      · next hconn => exact .of_closed h.fresh hconn
  | connected i =>
      unfold Session.step Session.connected
      dsimp only
      split
      · exact h
      · next cols rows hi =>
        obtain ⟨hcols, hrows⟩ := hok cols rows hi
        apply Inv.send
        · intro c hc
          exact h.fresh c (Nat.le_of_succ_le hc)
        · intro c hc
          obtain rfl := Option.some_inj.mp hc
          exact Nat.lt_succ_self _
        · intro c _ _
          exact congrArg some (Prod.ext hcols hrows)
  | refused i => exact ⟨h.fresh, h.known⟩
  | written c => exact h.settle c true
  | writeFailed c => exact h.settle c false
  | peerClosed c =>
      unfold Session.step
      dsimp only
      split
      · exact h.drop
      · exact h
  | resize cols rows =>
      apply Inv.send
      · exact h.fresh
      · exact fun c hc => (h.known c hc).1
      · intro c _ _
        have hclamp : ∀ n, (((max 1 (clamp n)).toNat : Nat) : Int) = clamp n := by
          intro n
          unfold clamp
          omega
        change some (clamp cols, clamp rows) =
          some ((((max 1 (clamp cols)).toNat : Nat) : Int),
            (((max 1 (clamp rows)).toNat : Nat) : Int))
        rw [hclamp, hclamp]
  | disconnect =>
      apply Inv.send h.fresh
      · exact fun c hc => (h.known c hc).1
      · exact fun c hc => (h.known c hc).2
  | goOn =>
      unfold Session.step
      dsimp only
      split
      · exact .of_closed h.fresh rfl
      · exact h

/-- **Genera knows the size of the screen** in every run in which each connection
comes up for the size that the screen has then. -/
theorem size_known (cols rows : Nat) (es : List Event)
    (hok : Exec.Allowed step SizeCurrent (new cols rows) es) (n : Nat) :
    (Exec.runTo step (new cols rows) es n).SizeKnown := by
  have hinit : Inv (new cols rows) := .of_closed (fun _ _ => ⟨rfl, rfl⟩) rfl
  exact (Exec.run_invariant (fun s e he h => Inv.step h e he) (hok.take n) hinit).sizeKnown

theorem size_known_sample :
    (Exec.runTo step (new 80 24) [.connect (some 100) (some 50), .connected 0, .written 0] 3).SizeKnown := by
  apply size_known
  refine ⟨trivial, ?_, trivial, trivial⟩
  intro cols rows h
  obtain ⟨rfl, rfl⟩ := Prod.mk.inj (Option.some_inj.mp h)
  exact ⟨rfl, rfl⟩

/-- The grid gets 300 columns, and Genera hears of 255. -/
theorem wide_screen_unknown :
    ¬(Exec.run step (new 80 24) [.connect (some 300) none, .connected 0, .written 0]).SizeKnown := by
  intro h
  have hsize := h 0 rfl rfl rfl
  exact absurd (congrArg Prod.fst (Option.some_inj.mp hsize)) (by decide)

/-- A resize that comes while connect waits is not told to Genera. -/
theorem resized_while_connecting_unknown :
    ¬(Exec.run step (new 80 24)
      [.connect none none, .resize 100 24, .connected 0, .written 0]).SizeKnown := by
  intro h
  have hsize := h 0 rfl rfl rfl
  exact absurd (congrArg Prod.fst (Option.some_inj.mp hsize)) (by decide)

end Session

end Terminal
