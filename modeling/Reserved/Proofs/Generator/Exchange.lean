import Mathlib.Logic.Function.Basic
import Reserved.Generator.Run

/-!
# How a generator and its run come to an end

The run writes the input of a generator to a pipe, and only when all of it is written does it take
what the generator has written to two other pipes. A pipe holds so many bytes and no more. The
generator reads its input to the end before it writes, or it never reads it; when it has ended, the
rest of its input is not written any more.

Every exchange is finite. It can get stuck in one way only: the run waits for room in the first
pipe, which nobody reads, and the generator for room in another one. So whether it does depends on
three lengths alone, and not on who is faster.
-/

namespace Reserved

namespace Generator

namespace Exchange

/-! ## Steps of an exchange -/

/-- The two outputs of a program. -/
inductive Output
  | stdout
  | stderr
  deriving DecidableEq

/-- What a program writes to an output. -/
def writes (p : Program) : Output → List UInt8
  | .stdout => p.stdout
  | .stderr => p.stderr

/-- An output of the program on its way to the run. -/
structure Stream where
  /-- What is still to be written. -/
  left : List UInt8
  /-- What the pipe holds. -/
  held : List UInt8
  taken : List UInt8

structure State where
  /-- What the run still has to give to the program. -/
  toGive : List UInt8
  /-- What the pipe holds that the program has not read. -/
  given : List UInt8
  /-- The run has closed the pipe, and takes what the program writes from now on. -/
  closed : Bool
  outputs : Output → Stream
  /-- The program has ended. -/
  ended : Bool

/-- The state with another output. -/
def State.change (s : State) (o : Output) (x : Stream) : State :=
  { s with outputs := Function.update s.outputs o x }

def start (p : Program) (input : List UInt8) : State :=
  ⟨input, [], false, fun o => ⟨writes p o, [], []⟩, false⟩

/-- The program is running and has read all of its input, if it reads it. -/
structure MayWrite (p : Program) (s : State) : Prop where
  running : s.ended = false
  read : p.readsInput = true → s.closed = true ∧ s.given = []

inductive Step (p : Program) : State → State → Prop
  | give {s : State} {b : UInt8} {rest : List UInt8} : s.ended = false → s.toGive = b :: rest →
      s.given.length < pipeSize →
      Step p s { s with toGive := rest, given := s.given ++ [b] }
  /-- The run has given everything, or there is nobody to give it to. -/
  | close {s : State} : s.closed = false → s.toGive = [] ∨ s.ended = true →
      Step p s { s with toGive := [], closed := true }
  | read {s : State} {b : UInt8} {rest : List UInt8} : p.readsInput = true → s.ended = false →
      s.given = b :: rest → Step p s { s with given := rest }
  | write {s : State} {o : Output} {b : UInt8} {rest : List UInt8} : MayWrite p s →
      (s.outputs o).left = b :: rest → (s.outputs o).held.length < pipeSize →
      Step p s (s.change o ⟨rest, (s.outputs o).held ++ [b], (s.outputs o).taken⟩)
  | take {s : State} {o : Output} {b : UInt8} {rest : List UInt8} : s.closed = true →
      (s.outputs o).held = b :: rest →
      Step p s (s.change o ⟨(s.outputs o).left, rest, (s.outputs o).taken ++ [b]⟩)
  | finish {s : State} : MayWrite p s → (∀ o, (s.outputs o).left = []) →
      Step p s { s with ended := true }

/-- The program has ended, and the run has taken all that it wrote. -/
structure Over (p : Program) (s : State) : Prop where
  closed : s.closed = true
  ended : s.ended = true
  outputs : ∀ o, s.outputs o = ⟨[], [], writes p o⟩

/-- However the exchange goes on, it comes to its end. -/
inductive ComesToEnd (p : Program) : State → Prop
  | done {s : State} : Over p s → ComesToEnd p s
  | step {s : State} : (∃ s', Step p s s') → (∀ s', Step p s s' → ComesToEnd p s') →
      ComesToEnd p s

/-- Every exchange of the program and the run that gives it this input comes to its end. -/
def Settles (p : Program) (input : List UInt8) : Prop :=
  ComesToEnd p (start p input)

variable {p : Program} {input : List UInt8} {s s' : State}

/-! ## Every exchange is finite -/

/-- How much there is to do about an output. -/
def Stream.weight (x : Stream) : Nat :=
  2 * x.left.length + x.held.length

/-- How much there is to do. Each byte is put into a pipe and taken from it. -/
def State.weight (s : State) : Nat :=
  2 * s.toGive.length + s.given.length + (s.outputs .stdout).weight + (s.outputs .stderr).weight +
    (!s.closed).toNat + (!s.ended).toNat

theorem outputs_change (s : State) (o : Output) (x : Stream) (o' : Output) :
    (s.change o x).outputs o' = if o' = o then x else s.outputs o' :=
  Function.update_apply ..

theorem weight_change {o : Output} {x : Stream} (h : x.weight < (s.outputs o).weight) :
    (s.change o x).weight < s.weight := by
  rw [State.weight, State.weight, outputs_change, outputs_change]
  dsimp only [State.change]
  cases o with
  | stdout =>
      rw [if_pos rfl, if_neg (by simp)]
      omega
  | stderr =>
      rw [if_neg (by simp), if_pos rfl]
      omega

/-- **Each step leaves less to do.** -/
theorem Step.weight_lt (h : Step p s s') : s'.weight < s.weight := by
  cases h with
  | give _ hgive _ =>
      simp only [State.weight, hgive, List.length_append, List.length_cons, List.length_nil]
      omega
  | close hopen _ =>
      simp only [State.weight, hopen, List.length_nil, Bool.not_false, Bool.not_true,
        Bool.toNat_true, Bool.toNat_false]
      omega
  | read _ _ hgiven =>
      simp only [State.weight, hgiven, List.length_cons]
      omega
  | write _ hleft _ =>
      refine weight_change ?_
      simp only [Stream.weight, hleft, List.length_append, List.length_cons, List.length_nil]
      omega
  | take _ hheld =>
      refine weight_change ?_
      simp only [Stream.weight, hheld, List.length_cons]
      omega
  | finish hmay _ =>
      simp only [State.weight, hmay.running, Bool.not_false, Bool.not_true, Bool.toNat_true,
        Bool.toNat_false]
      omega

/-! ## What holds all along -/

/-- What holds of an output: nothing is lost, the pipe is not overfull, and nothing is taken before
the run has closed the pipe of the input. -/
structure Stream.Sound (p : Program) (o : Output) (closed : Bool) (x : Stream) : Prop where
  whole : x.taken ++ x.held ++ x.left = writes p o
  fits : x.held.length ≤ pipeSize
  untaken : closed = false → x.taken = []

/-- What holds in every state of an exchange. -/
structure Sound (p : Program) (input : List UInt8) (s : State) : Prop where
  outputs : ∀ o, (s.outputs o).Sound p o s.closed
  fits : s.given.length ≤ pipeSize
  /-- Nothing has been read if the program does not read. -/
  unread : p.readsInput = false → s.closed = false → s.given ++ s.toGive = input
  given : s.closed = true → s.toGive = []
  written : s.ended = true → ∀ o, (s.outputs o).left = []

theorem sound_start (p : Program) (input : List UInt8) : Sound p input (start p input) where
  outputs _ := ⟨rfl, Nat.zero_le _, fun _ => rfl⟩
  fits := Nat.zero_le _
  unread _ _ := rfl
  given h := by cases h
  written h := by cases h

theorem Sound.change {o : Output} {x : Stream} (h : Sound p input s)
    (hx : x.Sound p o s.closed) (hwritten : s.ended = true → x.left = []) :
    Sound p input (s.change o x) where
  outputs o' := by
    rw [outputs_change]
    split
    · next ho => exact ho ▸ hx
    · exact h.outputs o'
  fits := h.fits
  unread := h.unread
  given := h.given
  written hended o' := by
    rw [outputs_change]
    split
    · exact hwritten hended
    · exact h.written hended o'

theorem Sound.step (h : Sound p input s) (hstep : Step p s s') : Sound p input s' := by
  cases hstep with
  | give hrunning hgive hroom =>
      refine ⟨h.outputs, ?_, fun hread hopen => ?_, fun hclosed => ?_, h.written⟩
      · rw [List.length_append]
        exact hroom
      · rw [← h.unread hread hopen, hgive, List.append_assoc]
        rfl
      · cases hgive.symm.trans (h.given hclosed)
  | close hopen _ =>
      refine ⟨fun o => ?_, h.fits, (fun _ hopen => by cases hopen), fun _ => rfl, h.written⟩
      exact ⟨(h.outputs o).whole, (h.outputs o).fits, fun hopen => by cases hopen⟩
  | read hreads _ hgiven =>
      refine ⟨h.outputs, ?_, fun hnot => ?_, h.given, h.written⟩
      · have hfits := h.fits
        rw [hgiven, List.length_cons] at hfits
        exact Nat.le_of_succ_le hfits
      · cases hreads.symm.trans hnot
  | @write o b rest hmay hleft hroom =>
      obtain ⟨hwhole, -, huntaken⟩ := h.outputs o
      refine h.change ⟨?_, ?_, huntaken⟩ fun hended => ?_
      · rw [← hwhole, hleft]
        simp
      · rw [List.length_append]
        exact hroom
      · cases hmay.running.symm.trans hended
  | @take o b rest hclosed hheld =>
      obtain ⟨hwhole, hfits, -⟩ := h.outputs o
      refine h.change ⟨?_, ?_, fun hopen => ?_⟩ fun hended => h.written hended o
      · rw [← hwhole, hheld]
        simp
      · rw [hheld, List.length_cons] at hfits
        exact Nat.le_of_succ_le hfits
      · cases hclosed.symm.trans hopen
  | finish _ hleft => exact ⟨h.outputs, h.fits, h.unread, h.given, fun _ => hleft⟩

/-! ## When an exchange gets stuck -/

theorem jams_iff : jams p input = true ↔ p.readsInput = false ∧ pipeSize < input.length ∧
    ∃ o, pipeSize < (writes p o).length := by
  have houtputs : (∃ o, pipeSize < (writes p o).length) ↔
      pipeSize < p.stdout.length ∨ pipeSize < p.stderr.length := by
    constructor
    · rintro ⟨o, ho⟩
      cases o with
      | stdout => exact .inl ho
      | stderr => exact .inr ho
    · rintro (h | h)
      · exact ⟨.stdout, h⟩
      · exact ⟨.stderr, h⟩
  rw [houtputs, jams, Bool.and_eq_true, Bool.and_eq_true, Bool.or_eq_true, Bool.not_eq_true',
    decide_eq_true_iff, decide_eq_true_iff, decide_eq_true_iff, and_assoc]

/-- A program that may write does so, or ends, if there is room for what is left. -/
theorem MayWrite.exists_step (h : MayWrite p s)
    (hroom : ∀ o, (s.outputs o).left ≠ [] → (s.outputs o).held.length < pipeSize) :
    ∃ s', Step p s s' := by
  by_cases hleft : ∀ o, (s.outputs o).left = []
  · exact ⟨_, .finish h hleft⟩
  · obtain ⟨o, ho⟩ := Classical.not_forall.mp hleft
    obtain ⟨b, rest, hrest⟩ := List.exists_cons_of_ne_nil ho
    exact ⟨_, .write h hrest (hroom o ho)⟩

/-- While the run gives, there is room in the pipe of the input or in those of the outputs. -/
theorem exists_step_of_open (h : Sound p input s) (hopen : s.closed = false)
    (hjams : jams p input = false) : ∃ s', Step p s s' := by
  cases hgive : s.toGive with
  | nil => exact ⟨_, .close hopen (.inl hgive)⟩
  | cons b rest =>
      cases hended : s.ended with
      | true => exact ⟨_, .close hopen (.inr hended)⟩
      | false =>
          by_cases hroom : s.given.length < pipeSize
          · exact ⟨_, .give hended hgive hroom⟩
          have hfull : s.given.length = pipeSize := Nat.le_antisymm h.fits (Nat.not_lt.mp hroom)
          cases hreads : p.readsInput with
          | true =>
              have hgiven : s.given ≠ [] := by
                intro hnil
                rw [hnil] at hfull
                cases hfull
              obtain ⟨b, rest, hgiven⟩ := List.exists_cons_of_ne_nil hgiven
              exact ⟨_, .read hreads hended hgiven⟩
          | false =>
              have hmay : MayWrite p s := ⟨hended, fun h => by cases hreads.symm.trans h⟩
              refine hmay.exists_step fun o hleft => ?_
              -- the pipe is full and more is to come, so the input is longer than a pipe holds
              have hinput : pipeSize < input.length := by
                rw [← h.unread hreads hopen, hgive, List.length_append, hfull, List.length_cons]
                omega
              -- then no output is, and there is room for what is left of it
              have hshort : (writes p o).length ≤ pipeSize := by
                rw [← Nat.not_lt]
                intro hlong
                cases hjams.symm.trans (jams_iff.mpr ⟨hreads, hinput, o, hlong⟩)
              rw [← (h.outputs o).whole, List.length_append, List.length_append] at hshort
              have hleft := List.length_pos_iff.mpr hleft
              omega

/-- Once the run takes what is written, nothing can stop the exchange but its end. -/
theorem exists_step_of_closed (h : Sound p input s) (hclosed : s.closed = true) :
    Over p s ∨ ∃ s', Step p s s' := by
  by_cases hheld : ∀ o, (s.outputs o).held = []
  · cases hended : s.ended with
    | true =>
        -- nothing is left and nothing is held, so everything has been taken
        refine .inl ⟨hclosed, hended, fun o => ?_⟩
        have hleft := h.written hended o
        have hheld := hheld o
        have hwhole := (h.outputs o).whole
        rcases hx : s.outputs o with ⟨left, held, taken⟩
        rw [hx] at hleft hheld hwhole
        obtain rfl : left = [] := hleft
        obtain rfl : held = [] := hheld
        rw [← hwhole, List.append_nil, List.append_nil]
    | false =>
        right
        have hwrite : (p.readsInput = true → s.given = []) → ∃ s', Step p s s' := by
          intro hread
          have hmay : MayWrite p s := ⟨hended, fun hreads => ⟨hclosed, hread hreads⟩⟩
          refine hmay.exists_step fun o _ => ?_
          rw [hheld o]
          exact Nat.succ_pos _
        by_cases hreads : p.readsInput = true
        · cases hgiven : s.given with
          | nil => exact hwrite fun _ => hgiven
          | cons b rest => exact ⟨_, .read hreads hended hgiven⟩
        · exact hwrite fun h => absurd h hreads
  · obtain ⟨o, ho⟩ := Classical.not_forall.mp hheld
    obtain ⟨b, rest, hrest⟩ := List.exists_cons_of_ne_nil ho
    exact .inr ⟨_, .take hclosed hrest⟩

/-- **An exchange that is not over goes on**, unless the two come to wait for each other. -/
theorem exists_step (h : Sound p input s) (hjams : jams p input = false) :
    Over p s ∨ ∃ s', Step p s s' := by
  cases hclosed : s.closed with
  | false => exact .inr (exists_step_of_open h hclosed hjams)
  | true => exact exists_step_of_closed h hclosed

theorem comesToEnd_of_sound (hjams : jams p input = false) (n : Nat) :
    ∀ {s : State}, s.weight < n → Sound p input s → ComesToEnd p s := by
  induction n with
  | zero => exact fun h => absurd h (Nat.not_lt_zero _)
  | succ n ih =>
      intro s hn hsound
      rcases exists_step hsound hjams with hover | hstep
      · exact .done hover
      · refine .step hstep fun s' hs' => ih ?_ (hsound.step hs')
        have := hs'.weight_lt
        omega

/-- The run is still giving, and the program is running. -/
structure Waiting (s : State) : Prop where
  giving : s.closed = false
  running : s.ended = false

/-- **Two that wait for each other go on to do so.** -/
theorem Waiting.step (h : Waiting s) (hsound : Sound p input s) (hjams : jams p input = true)
    (hstep : Step p s s') : Waiting s' := by
  obtain ⟨hreads, hinput, o, hlong⟩ := jams_iff.mp hjams
  obtain ⟨hgiving, hrunning⟩ := h
  cases hstep with
  | give _ _ _ => exact ⟨hgiving, hrunning⟩
  | close _ hdone =>
      rcases hdone with hnone | hended
      · -- all of the input would be in the pipe
        have hgiven := hsound.unread hreads hgiving
        rw [hnone, List.append_nil] at hgiven
        rw [← hgiven] at hinput
        exact absurd hsound.fits (Nat.not_le.mpr hinput)
      · cases hrunning.symm.trans hended
  | read _ _ _ => exact ⟨hgiving, hrunning⟩
  | write _ _ _ => exact ⟨hgiving, hrunning⟩
  | take hclosed _ => cases hgiving.symm.trans hclosed
  | finish _ hleft =>
      -- all of the output would be in its pipe
      obtain ⟨hwhole, hfits, huntaken⟩ := hsound.outputs o
      rw [hleft o, huntaken hgiving, List.nil_append, List.append_nil] at hwhole
      rw [← hwhole] at hlong
      exact absurd hfits (Nat.not_le.mpr hlong)

theorem Waiting.not_comesToEnd (hjams : jams p input = true) (h : ComesToEnd p s) :
    Sound p input s → ¬ Waiting s := by
  induction h with
  | done hover =>
      intro _ hwaiting
      cases hwaiting.giving.symm.trans hover.closed
  | step hexists _ ih =>
      intro hsound hwaiting
      obtain ⟨s', hstep⟩ := hexists
      exact ih s' hstep (hsound.step hstep) (hwaiting.step hsound hjams hstep)

/-- **An exchange comes to its end** unless the two come to wait for each other. -/
theorem settles_iff : Settles p input ↔ jams p input = false := by
  constructor
  · intro h
    cases hjams : jams p input with
    | false => rfl
    | true => exact absurd ⟨rfl, rfl⟩ (Waiting.not_comesToEnd hjams h (sound_start p input))
  · exact fun hjams => comesToEnd_of_sound hjams _ (Nat.lt_succ_self _) (sound_start p input)

/-- The output is a byte too long for its pipe, and so is the input, which is not read. -/
example : ¬ Settles ⟨List.replicate 65537 0, [], .exit 0, false⟩ (List.replicate 65537 0) := by
  rw [settles_iff, jams, List.length_replicate]
  decide

end Exchange

end Generator

end Reserved
