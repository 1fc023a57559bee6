import Reserved.Proofs.Json.Grammar

/-!
# Values that are passed over

What stands in a field of an unknown name is passed over by a loop that keeps a stack of the lists
and objects that are still open. It passes over every value of the grammar, however deep it is
nested, and over nothing else.

The loop is described in two ways. `resume` is where it stands after a value: before the end of
what the value stands in, or before its next part. `Closes` is the text that a stack of frames is
closed by.
-/

namespace Reserved

namespace Json

/-! ## The first byte of a value -/

theorem expectWord_eq_ok_iff {word : List Char} : ∀ {cs rest : List UInt8},
    expectWord word cs = .ok rest ↔ cs = word.map Char.toUInt8 ++ rest := by
  induction word with
  | nil => exact fun {cs rest} => ⟨Except.ok.inj, congrArg Except.ok⟩
  | cons c word ih =>
      intro cs rest
      cases cs with
      | nil => exact ⟨fun h => by contradiction, fun h => by contradiction⟩
      | cons b cs =>
          rw [expectWord, List.map_cons, List.cons_append, List.cons.injEq]
          split
          · next hb => exact ih.trans ⟨fun h => ⟨hb, h⟩, And.right⟩
          · next hb => exact ⟨fun h => by contradiction, fun h => absurd h.1 hb⟩

theorem skipToken_word {w : List UInt8} (h : w ∈ ["null".utf8, "true".utf8, "false".utf8])
    {bs : List UInt8} (hbs : Blanks bs) (rest : List UInt8) :
    skipToken (bs ++ (w ++ rest)) = .ok (none, rest) := by
  have hword : ∀ word : String,
      expectWord word.toList (word.toList.map Char.toUInt8 ++ rest) = .ok rest :=
    fun _ => expectWord_eq_ok_iff.mpr rfl
  simp only [List.mem_cons, List.not_mem_nil, or_false] at h
  unfold skipToken
  rcases h with rfl | rfl | rfl
  · rw [show "null".utf8 ++ rest = 'n'.toUInt8 :: ("ull".toList.map Char.toUInt8 ++ rest) from rfl,
      skipBlanks_append hbs _ (by decide)]
    dsimp only
    rw [if_pos rfl, hword]
    rfl
  · rw [show "true".utf8 ++ rest = 't'.toUInt8 :: ("rue".toList.map Char.toUInt8 ++ rest) from rfl,
      skipBlanks_append hbs _ (by decide)]
    dsimp only
    rw [if_neg (by decide), if_pos rfl, hword]
    rfl
  · rw [show "false".utf8 ++ rest = 'f'.toUInt8 :: ("alse".toList.map Char.toUInt8 ++ rest)
        from rfl, skipBlanks_append hbs _ (by decide)]
    dsimp only
    rw [if_neg (by decide), if_neg (by decide), if_pos rfl, hword]
    rfl

theorem skipToken_number {w : List UInt8} (h : NumberText w) {bs rest : List UInt8}
    (hbs : Blanks bs) (hrest : Ended rest) :
    skipToken (bs ++ (w ++ rest)) = .ok (none, rest) := by
  have hreads := h.reads hrest
  obtain ⟨d, w, rfl, hd⟩ := h.exists_digit
  have hne : ∀ {c : UInt8}, isDigit c = false → d ≠ c := ne_of_isDigit hd
  rw [List.cons_append] at hreads ⊢
  unfold skipToken
  rw [skipBlanks_append hbs _ (lead_of_isDigit hd).1]
  dsimp only
  rw [if_neg (hne (by decide)), if_neg (hne (by decide)), if_neg (hne (by decide)),
    if_neg (hne (by decide)), if_pos hd, hreads]
  rfl

theorem skipToken_negative {w : List UInt8} (h : NumberText w) {bs rest : List UInt8}
    (hbs : Blanks bs) (hrest : Ended rest) :
    skipToken (bs ++ '-'.toUInt8 :: (w ++ rest)) = .ok (none, rest) := by
  unfold skipToken
  rw [skipBlanks_append hbs _ (by decide)]
  dsimp only
  rw [if_neg (by decide), if_neg (by decide), if_neg (by decide), if_pos rfl, h.reads hrest]
  rfl

theorem skipToken_string {body : List UInt8} (h : Loose body) {bs : List UInt8} (hbs : Blanks bs)
    (rest : List UInt8) :
    skipToken (bs ++ '"'.toUInt8 :: (body ++ '"'.toUInt8 :: rest)) = .ok (none, rest) := by
  unfold skipToken
  rw [skipBlanks_append hbs _ (by decide)]
  dsimp only
  rw [if_neg (by decide), if_neg (by decide), if_neg (by decide), if_neg (by decide),
    if_neg (by decide), if_pos rfl, h.reads]
  rfl

theorem skipToken_opening (frame : Frame) {bs : List UInt8} (hbs : Blanks bs)
    (rest : List UInt8) : skipToken (bs ++ frame.opening :: rest) = .ok (some frame, rest) := by
  unfold skipToken
  cases frame with
  | list =>
      rw [skipBlanks_append hbs _ (by decide)]
      rfl
  | object =>
      rw [skipBlanks_append hbs _ (by decide)]
      rfl

/-- What has been passed over is a value, or the opening of one. -/
theorem exists_token {cs rest : List UInt8} {begun : Option Frame}
    (h : skipToken cs = .ok (begun, rest)) : ∃ bs, Blanks bs ∧
      ((begun = none ∧ ∃ w, Value w ∧ cs = bs ++ (w ++ rest)) ∨
        ∃ frame, begun = some frame ∧ cs = bs ++ frame.opening :: rest) := by
  unfold skipToken at h
  split at h
  · contradiction
  next b after hskip =>
  obtain ⟨bs, hbs, rfl⟩ := exists_blanks hskip
  refine ⟨bs, hbs, ?_⟩
  simp only [List.append_cancel_left_eq]
  have hword : ∀ {word : List Char},
      b :: word.map Char.toUInt8 ∈ ["null".utf8, "true".utf8, "false".utf8] →
      (do return (none, ← expectWord word after)) = Except.ok (begun, rest) →
      begun = none ∧ ∃ w, Value w ∧ b :: after = w ++ rest := by
    intro word hmem h
    obtain ⟨left, hleft, h⟩ := bind_eq_ok.mp h
    obtain ⟨rfl, rfl⟩ := Prod.mk.inj (Except.ok.inj h)
    exact ⟨rfl, _, .word hmem, by rw [expectWord_eq_ok_iff.mp hleft, List.cons_append]⟩
  split at h
  · next hb => exact Or.inl (hword (by rw [hb]; decide) h)
  split at h
  · next hb => exact Or.inl (hword (by rw [hb]; decide) h)
  split at h
  · next hb => exact Or.inl (hword (by rw [hb]; decide) h)
  split at h
  · next hb =>
    obtain ⟨left, hleft, h⟩ := bind_eq_ok.mp h
    obtain ⟨rfl, rfl⟩ := Prod.mk.inj (Except.ok.inj h)
    obtain ⟨w, hw, rfl⟩ := exists_number hleft
    exact Or.inl ⟨rfl, _, .negative hw, by rw [hb, List.cons_append]⟩
  split at h
  · obtain ⟨left, hleft, h⟩ := bind_eq_ok.mp h
    obtain ⟨rfl, rfl⟩ := Prod.mk.inj (Except.ok.inj h)
    obtain ⟨w, hw, hafter⟩ := exists_number hleft
    exact Or.inl ⟨rfl, w, .number hw, hafter⟩
  split at h
  · next hb =>
    obtain ⟨left, hleft, h⟩ := bind_eq_ok.mp h
    obtain ⟨rfl, rfl⟩ := Prod.mk.inj (Except.ok.inj h)
    obtain ⟨body, hbody, rfl⟩ := exists_loose hleft
    exact Or.inl ⟨rfl, _, .string hbody, by rw [hb]; simp⟩
  split at h
  · next hb =>
    obtain ⟨rfl, rfl⟩ := Prod.mk.inj (Except.ok.inj h)
    exact Or.inr ⟨.list, rfl, by rw [hb]; rfl⟩
  split at h
  · next hb =>
    obtain ⟨rfl, rfl⟩ := Prod.mk.inj (Except.ok.inj h)
    exact Or.inr ⟨.object, rfl, by rw [hb]; rfl⟩
  · contradiction

/-! ## The next part of a frame -/

theorem skipInFrame_eq {opened : Bool} {frame : Frame} {cs after : List UInt8} {b : UInt8}
    (h : skipBlanks cs = b :: after) : skipInFrame opened frame cs =
      if b = frame.closing then .ok (true, after)
      else if opened then do return (false, ← skipToPart frame (b :: after))
      else if b = ','.toUInt8 then do return (false, ← skipToPart frame after)
      else
        .error (match frame with
          | .list => .expectedCommaOrBracket
          | .object => .expectedCommaOrBrace) := by
  unfold skipInFrame
  rw [h]
  cases frame <;> rfl

theorem Frame.comma_ne_closing (frame : Frame) : ','.toUInt8 ≠ frame.closing := by
  cases frame <;> decide

theorem skipInFrame_closing (opened : Bool) (frame : Frame) {bs : List UInt8} (hbs : Blanks bs)
    (rest : List UInt8) : skipInFrame opened frame (bs ++ frame.closing :: rest)
      = .ok (true, rest) := by
  have hblank : isBlank frame.closing = false := by cases frame <;> decide
  rw [skipInFrame_eq (skipBlanks_append hbs rest hblank), if_pos rfl]

/-- Before a value that is a part of a frame, what makes it one is passed over. -/
theorem skipToPart_part {frame : Frame} {v w : List UInt8} (h : frame.Part v w) {bs : List UInt8}
    (hbs : Blanks bs) (rest : List UInt8) :
    ∃ bs', Blanks bs' ∧ skipToPart frame (bs ++ (w ++ rest)) = .ok (bs' ++ (v ++ rest)) := by
  cases frame with
  | list =>
      obtain rfl : v = w := h
      exact ⟨bs, hbs, rfl⟩
  | object =>
      obtain @⟨k, before, after, _, hk, hbefore, hafter, rfl⟩ := h
      refine ⟨after, hafter, ?_⟩
      unfold skipToPart
      simp only [List.cons_append, List.append_assoc]
      rw [skipBlanks_append hbs _ (by decide)]
      dsimp only
      rw [if_pos rfl, hk.reads]
      exact passes_colon.append hbefore _

theorem Frame.Part.front {frame : Frame} {v w : List UInt8} (h : frame.Part v w) (hv : Begins v) :
    ∃ b w', w = b :: w' ∧ isBlank b = false ∧ b ≠ frame.closing := by
  cases frame with
  | list =>
      obtain rfl : v = w := h
      exact hv
  | object =>
      obtain ⟨-, -, -, -⟩ := h
      exact ⟨_, _, rfl, by decide, by decide⟩

theorem skipInFrame_part {opened : Bool} {frame : Frame} {sep v w : List UInt8}
    (hsep : Separates opened sep) (h : frame.Part v w) (hv : Begins v) (rest : List UInt8) :
    ∃ bs, Blanks bs ∧ skipInFrame opened frame (sep ++ (w ++ rest))
      = .ok (false, bs ++ (v ++ rest)) := by
  obtain ⟨b, w', hw, hblank, hclosing⟩ := h.front hv
  cases opened with
  | true =>
      obtain ⟨bs, hbs, hpart⟩ := skipToPart_part h blanks_nil rest
      rw [hw, List.nil_append, List.cons_append] at hpart
      refine ⟨bs, hbs, ?_⟩
      rw [hw, List.cons_append, skipInFrame_eq (skipBlanks_append hsep _ hblank), if_neg hclosing,
        if_pos rfl, hpart]
      rfl
  | false =>
      obtain ⟨before, after, hbefore, hafter, rfl⟩ := hsep
      obtain ⟨bs, hbs, hpart⟩ := skipToPart_part h hafter rest
      refine ⟨bs, hbs, ?_⟩
      rw [List.append_assoc, List.cons_append,
        skipInFrame_eq (skipBlanks_append hbefore _ (by decide)), if_neg frame.comma_ne_closing,
        if_neg Bool.false_ne_true, if_pos rfl, hpart]
      rfl

theorem exists_toPart {frame : Frame} {cs bs v rest : List UInt8}
    (h : skipToPart frame cs = .ok (bs ++ (v ++ rest))) (hbs : Blanks bs) :
    ∃ bs' w, Blanks bs' ∧ frame.Part v w ∧ cs = bs' ++ (w ++ rest) := by
  cases frame with
  | list =>
      obtain rfl := Except.ok.inj h
      exact ⟨bs, v, hbs, rfl, rfl⟩
  | object =>
      unfold skipToPart at h
      dsimp only at h
      split at h
      · contradiction
      next b after hskip =>
      obtain ⟨bs', hbs', rfl⟩ := exists_blanks hskip
      split at h
      · next hb =>
        obtain ⟨left, hleft, hcolon⟩ := bind_eq_ok.mp h
        obtain ⟨k, hk, rfl⟩ := exists_loose hleft
        obtain ⟨before, hbefore, rfl⟩ := passes_colon.before hcolon
        refine ⟨bs', _, hbs', .mk hk hbefore hbs rfl, ?_⟩
        rw [hb]
        simp only [List.append_assoc, List.cons_append]
      · contradiction

theorem exists_closing {opened : Bool} {frame : Frame} {cs rest : List UInt8}
    (h : skipInFrame opened frame cs = .ok (true, rest)) :
    ∃ bs, Blanks bs ∧ cs = bs ++ frame.closing :: rest := by
  cases hskip : skipBlanks cs with
  | nil =>
      unfold skipInFrame at h
      rw [hskip] at h
      contradiction
  | cons b after =>
      rw [skipInFrame_eq hskip] at h
      split at h
      · next hb =>
        obtain ⟨-, rfl⟩ := Prod.mk.inj (Except.ok.inj h)
        rw [hb] at hskip
        exact exists_blanks hskip
      -- what is before a part is never taken for a closing
      split at h
      · obtain ⟨left, -, h⟩ := bind_eq_ok.mp h
        exact absurd (Prod.mk.inj (Except.ok.inj h)).1 (by decide)
      split at h
      · obtain ⟨left, -, h⟩ := bind_eq_ok.mp h
        exact absurd (Prod.mk.inj (Except.ok.inj h)).1 (by decide)
      · contradiction

/-- What has been passed over before a value makes it a part of the frame. -/
theorem exists_part {opened : Bool} {frame : Frame} {cs bs v rest : List UInt8}
    (h : skipInFrame opened frame cs = .ok (false, bs ++ (v ++ rest))) (hbs : Blanks bs) :
    ∃ sep w, Separates opened sep ∧ frame.Part v w ∧ cs = sep ++ (w ++ rest) := by
  cases hskip : skipBlanks cs with
  | nil =>
      unfold skipInFrame at h
      rw [hskip] at h
      contradiction
  | cons b after =>
      rw [skipInFrame_eq hskip] at h
      obtain ⟨front, hfront, hcs⟩ := exists_blanks hskip
      split at h
      · exact absurd (Prod.mk.inj (Except.ok.inj h)).1 (by decide)
      split at h
      · next hopened =>
        obtain ⟨left, hleft, h⟩ := bind_eq_ok.mp h
        obtain rfl := (Prod.mk.inj (Except.ok.inj h)).2
        obtain ⟨bs', w, hbs', hw, hafter⟩ := exists_toPart hleft hbs
        rw [hafter, ← List.append_assoc] at hcs
        rw [hopened]
        exact ⟨front ++ bs', w, hfront.append hbs', hw, hcs⟩
      next hopened =>
      split at h
      · next hb =>
        obtain ⟨left, hleft, h⟩ := bind_eq_ok.mp h
        obtain rfl := (Prod.mk.inj (Except.ok.inj h)).2
        obtain ⟨bs', w, hbs', hw, rfl⟩ := exists_toPart hleft hbs
        rw [Bool.eq_false_iff.mpr hopened]
        refine ⟨front ++ ','.toUInt8 :: bs', w, ⟨front, bs', hfront, hbs', rfl⟩, hw, ?_⟩
        rw [hcs, hb, List.append_assoc, List.cons_append]
      · contradiction

/-! ## The loop -/

/-- The loop after a value, or after the opening of a frame: it closes the frames that end here,
and goes on with the next part of the first that does not. -/
def resume (limit : Nat) (opened : Bool) (frames : List Frame) (cs : List UInt8) :
    Except Error (List UInt8) := do
  let (frames, rest) ← settle opened frames cs
  if frames.isEmpty then return rest else skipWithin limit frames rest

theorem resume_nil (limit : Nat) (opened : Bool) (cs : List UInt8) :
    resume limit opened [] cs = .ok cs := rfl

theorem resume_closing {limit : Nat} {opened : Bool} {frame : Frame} {frames : List Frame}
    {cs rest : List UInt8} (h : skipInFrame opened frame cs = .ok (true, rest)) :
    resume limit opened (frame :: frames) cs = resume limit false frames rest := by
  unfold resume
  rw [settle, h]

theorem resume_part {limit : Nat} {opened : Bool} {frame : Frame} {frames : List Frame}
    {cs rest : List UInt8} (h : skipInFrame opened frame cs = .ok (false, rest)) :
    resume limit opened (frame :: frames) cs = skipWithin limit (frame :: frames) rest := by
  unfold resume
  rw [settle, h]
  rfl

theorem skipWithin_succ (limit : Nat) (frames : List Frame) (cs : List UInt8) :
    skipWithin (limit + 1) frames cs = (do
      let (begun, rest) ← skipToken cs
      match begun with
      | some frame => resume limit true (frame :: frames) rest
      | none => resume limit false frames rest) := by
  rw [skipWithin]
  refine congrArg (skipToken cs >>= ·) (funext fun p => ?_)
  obtain ⟨begun, rest⟩ := p
  cases begun <;> rfl

/-! ## Every value is passed over -/

theorem Frame.Part.length_le {frame : Frame} {v w : List UInt8} (h : frame.Part v w) :
    v.length ≤ w.length := by
  cases frame with
  | list =>
      obtain rfl : v = w := h
      exact Nat.le_refl _
  | object =>
      obtain @⟨k, before, after, _, -, -, -, rfl⟩ := h
      simp only [List.length_cons, List.length_append]
      omega

/-- The loop passes over `w`, whatever it stands in and whatever follows, and spends no more of
its limit than `w` has bytes. -/
def Skips (w : List UInt8) : Prop :=
  ∀ (limit : Nat) (frames : List Frame) {bs rest : List UInt8}, Blanks bs → Ended rest →
    w.length ≤ limit → ∃ limit', limit ≤ limit' + w.length ∧
      skipWithin limit frames (bs ++ (w ++ rest)) = resume limit' false frames rest

theorem skips_of_token {w : List UInt8} (hw : Begins w)
    (h : ∀ {bs rest : List UInt8}, Blanks bs → Ended rest →
      skipToken (bs ++ (w ++ rest)) = .ok (none, rest)) : Skips w := by
  intro limit frames bs rest hbs hrest hlimit
  obtain ⟨b, w, rfl, -, -⟩ := hw
  rw [List.length_cons] at hlimit ⊢
  obtain ⟨limit, rfl⟩ : ∃ n, limit = n + 1 := ⟨limit - 1, by omega⟩
  refine ⟨limit, by omega, ?_⟩
  rw [skipWithin_succ, h hbs hrest]
  rfl

/-- The parts of a frame are passed over one by one, and then its closing. -/
theorem resume_parts (frame : Frame) (frames : List Frame) (rest : List UInt8)
    {vs : List (List UInt8)} (h : ∀ v ∈ vs, Begins v ∧ Skips v) :
    ∀ {opened : Bool} {inner : List UInt8} (limit : Nat),
      Parts opened (vs.map frame.Part) inner → inner.length ≤ limit →
      ∃ limit', limit ≤ limit' + inner.length ∧
        resume limit opened (frame :: frames) (inner ++ frame.closing :: rest)
          = resume limit' false frames rest := by
  induction vs with
  | nil =>
      intro opened inner limit hparts _
      cases hparts with
      | done hbs =>
          exact ⟨limit, Nat.le_add_right _ _,
            resume_closing (skipInFrame_closing opened frame hbs rest)⟩
  | cons v vs ih =>
      intro opened inner limit hparts hlimit
      cases hparts with
      | @part _ sep w more _ _ hsep hw hmore =>
          obtain ⟨hbegins, hskips⟩ := h v List.mem_cons_self
          have hle := hw.length_le
          rw [List.length_append, List.length_append] at hlimit ⊢
          obtain ⟨bs, hbs, hnext⟩ :=
            skipInFrame_part hsep hw hbegins (more ++ frame.closing :: rest)
          obtain ⟨limit₁, hlimit₁, hvalue⟩ := hskips limit (frame :: frames) hbs
            (hmore.ended (frame.closing_ends rest)) (by omega)
          obtain ⟨limit₂, hlimit₂, hrest⟩ :=
            ih (fun v hv => h v (List.mem_cons_of_mem _ hv)) limit₁ hmore (by omega)
          refine ⟨limit₂, by omega, ?_⟩
          rw [List.append_assoc, List.append_assoc, resume_part hnext, hvalue, hrest]

theorem Value.skips {w : List UInt8} (h : Value w) : Skips w := by
  induction h with
  | word hw => exact skips_of_token (Value.word hw).begins fun hbs _ => skipToken_word hw hbs _
  | number hw => exact skips_of_token (Value.number hw).begins (skipToken_number hw)
  | negative hw => exact skips_of_token (Value.negative hw).begins (skipToken_negative hw)
  | string hbody =>
      refine skips_of_token (Value.string hbody).begins fun hbs _ => ?_
      simp only [List.cons_append, List.append_assoc]
      exact skipToken_string hbody hbs _
  | @within frame vs inner hvs hparts ih =>
      intro limit frames bs rest hbs hrest hlimit
      rw [List.length_cons, List.length_append, List.length_singleton] at hlimit ⊢
      obtain ⟨limit, rfl⟩ : ∃ n, limit = n + 1 := ⟨limit - 1, by omega⟩
      obtain ⟨limit', hlimit', hinner⟩ := resume_parts frame frames rest
        (fun v hv => ⟨(hvs v hv).begins, ih v hv⟩) limit hparts (by omega)
      refine ⟨limit', by omega, ?_⟩
      rw [List.cons_append, List.append_assoc, List.singleton_append, skipWithin_succ,
        skipToken_opening frame hbs, ok_bind]
      exact hinner

theorem skipValue_append {w bs rest : List UInt8} {limit : Nat} (h : Value w) (hbs : Blanks bs)
    (hrest : Ended rest) (hlimit : w.length ≤ limit) :
    skipValue limit (bs ++ (w ++ rest)) = .ok rest := by
  obtain ⟨limit', -, hskip⟩ := h.skips limit [] hbs hrest hlimit
  rw [skipValue, hskip, resume_nil]

/-! ## Nothing else is passed over -/

/-- Frames are closed by the text up to `rest`: each by its parts, or what is left of them, and
its closing mark. -/
inductive Closes : Bool → List Frame → List UInt8 → List UInt8 → Prop
  | nil {opened : Bool} {rest : List UInt8} : Closes opened [] rest rest
  | cons {opened : Bool} {frame : Frame} {frames : List Frame} {vs : List (List UInt8)}
      {inner more rest : List UInt8} :
      (∀ v ∈ vs, Value v) → Parts opened (vs.map frame.Part) inner →
      Closes false frames more rest →
      Closes opened (frame :: frames) (inner ++ frame.closing :: more) rest

theorem closes_of_resume {limit : Nat}
    (h : ∀ {frames : List Frame} {cs rest : List UInt8}, skipWithin limit frames cs = .ok rest →
      ∃ bs w more, Blanks bs ∧ Value w ∧ Closes false frames more rest ∧
        cs = bs ++ (w ++ more)) {frames : List Frame} :
    ∀ {opened : Bool} {cs rest : List UInt8}, resume limit opened frames cs = .ok rest →
      Closes opened frames cs rest := by
  induction frames with
  | nil =>
      intro opened cs rest hresume
      obtain rfl := Except.ok.inj hresume
      exact .nil
  | cons frame frames ih =>
      intro opened cs rest hresume
      cases hnext : skipInFrame opened frame cs with
      | error e =>
          unfold resume at hresume
          rw [settle, hnext] at hresume
          contradiction
      | ok next =>
          obtain ⟨closed, left⟩ := next
          cases closed with
          | true =>
              rw [resume_closing hnext] at hresume
              obtain ⟨bs, hbs, rfl⟩ := exists_closing hnext
              have hnone : ∀ v ∈ ([] : List (List UInt8)), Value v :=
                fun v hv => absurd hv List.not_mem_nil
              exact .cons hnone (.done hbs) (ih hresume)
          | false =>
              rw [resume_part hnext] at hresume
              obtain ⟨bs, v, more, hbs, hv, hcloses, rfl⟩ := h hresume
              obtain ⟨sep, w, hsep, hw, rfl⟩ := exists_part hnext hbs
              cases hcloses with
              | @cons _ _ _ vs inner more _ hvs hparts hrest =>
                  have hall : ∀ x ∈ v :: vs, Value x := by
                    intro x hx
                    rcases List.mem_cons.mp hx with rfl | hx
                    · exact hv
                    · exact hvs x hx
                  have hcloses := Closes.cons hall (.part hsep hw hparts) hrest
                  rwa [List.append_assoc, List.append_assoc] at hcloses

theorem exists_value_of_skipWithin (limit : Nat) :
    ∀ {frames : List Frame} {cs rest : List UInt8}, skipWithin limit frames cs = .ok rest →
      ∃ bs w more, Blanks bs ∧ Value w ∧ Closes false frames more rest ∧
        cs = bs ++ (w ++ more) := by
  induction limit with
  | zero =>
      intro frames cs rest h
      contradiction
  | succ limit ih =>
      intro frames cs rest h
      rw [skipWithin_succ] at h
      obtain ⟨⟨begun, left⟩, htoken, hresume⟩ := bind_eq_ok.mp h
      obtain ⟨bs, hbs, ⟨rfl, w, hw, rfl⟩ | ⟨frame, rfl, rfl⟩⟩ := exists_token htoken
      · exact ⟨bs, w, left, hbs, hw, closes_of_resume ih hresume, rfl⟩
      · -- the frame that was opened is the first to be closed, and is then a value
        cases closes_of_resume ih hresume with
        | @cons _ _ _ vs inner more _ hvs hparts hrest =>
            refine ⟨bs, _, more, hbs, .within hvs hparts, hrest, ?_⟩
            simp only [List.cons_append, List.append_assoc, List.nil_append]

theorem exists_value {limit : Nat} {cs rest : List UInt8} (h : skipValue limit cs = .ok rest) :
    ∃ bs w, Blanks bs ∧ Value w ∧ cs = bs ++ (w ++ rest) := by
  obtain ⟨bs, w, more, hbs, hw, hcloses, rfl⟩ := exists_value_of_skipWithin limit h
  cases hcloses
  exact ⟨bs, w, hbs, hw, rfl⟩

end Json

end Reserved
