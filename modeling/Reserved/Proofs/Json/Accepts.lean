import Reserved.Proofs.Json.Skipped

/-!
# Readers and the texts they accept

`Accepts` joins two statements on a reader and a form: every text of the form is read for the value
it stands for, whatever blanks are before it and whatever follows that ends a value; and whatever
is read was such a text. Numbers, strings and names are accepted in their forms, and so are the
lists of what is.

What is between the brackets of a list is read by a chain of readers, the later of which know what
the earlier have read. `Row` is the statement on such a chain; it holds the values that the chain
can still come to.
-/

namespace Reserved

namespace Json

variable {α β : Type}

/-- `r` reads the texts of a form, if they are shorter than the limit, and nothing else. -/
structure Accepts (limit : Nat) (r : Reader α) (form : Form α) : Prop where
  reads : ∀ {w : List UInt8} {x : α}, form w x → w.length < limit → Reads r w x
  spelt : ∀ {cs rest : List UInt8} {x : α}, r cs = .ok (x, rest) →
    ∃ bs w, Blanks bs ∧ form w x ∧ cs = bs ++ (w ++ rest)

theorem Accepts.map {limit : Nat} {r : Reader α} {form : Form α} (h : Accepts limit r form)
    (f : α → β) {form' : Form β} (hform : ∀ {w y}, form' w y ↔ ∃ x, form w x ∧ f x = y) :
    Accepts limit (fun cs => do
      let (x, rest) ← r cs
      return (f x, rest)) form' := by
  constructor
  · intro w y hw hlimit
    obtain ⟨x, hx, rfl⟩ := hform.mp hw
    have hreads := h.reads hx hlimit
    refine ⟨hreads.begins, ?_⟩
    intro bs rest hbs hrest
    rw [hreads.reads hbs hrest]
    rfl
  · intro cs rest y hy
    obtain ⟨⟨x, left⟩, hx, hy⟩ := bind_eq_ok.mp hy
    obtain ⟨rfl, rfl⟩ := Prod.mk.inj (Except.ok.inj hy)
    obtain ⟨bs, w, hbs, hw, rfl⟩ := h.spelt hx
    exact ⟨bs, w, hbs, hform.mpr ⟨x, hw, rfl⟩, rfl⟩

theorem Accepts.congr {limit : Nat} {r : Reader α} {form form' : Form α}
    (h : Accepts limit r form) (hform : ∀ {w x}, form' w x ↔ form w x) : Accepts limit r form' := by
  constructor
  · intro w x hw hlimit
    exact h.reads (hform.mp hw) hlimit
  · intro cs rest x hx
    obtain ⟨bs, w, hbs, hw, rfl⟩ := h.spelt hx
    exact ⟨bs, w, hbs, hform.mpr hw, rfl⟩

/-! ## Values without parts -/

theorem accepts_unsigned (limit : Nat) (wanted : String) {bound : Nat}
    (hbound : bound ≤ UInt64.size) :
    Accepts limit (unsigned wanted bound) fun w n => n < bound ∧ w = decimal n := by
  constructor
  · rintro w n ⟨hn, rfl⟩ -
    exact reads_unsigned wanted hn hbound
  · intro cs rest n h
    obtain ⟨bs, hbs, hn, hcs⟩ := exists_decimal h
    exact ⟨bs, decimal n, hbs, ⟨hn, rfl⟩, hcs⟩

theorem accepts_string (limit : Nat) (wanted : String) : Accepts limit (string wanted) Quoted := by
  constructor
  · rintro w s ⟨hbody⟩ -
    refine ⟨begins_quote _, ?_⟩
    intro bs rest hbs _
    unfold string
    rw [List.cons_append, List.append_assoc, List.singleton_append,
      skipBlanks_append hbs _ (by decide)]
    dsimp only
    rw [if_pos rfl, hbody.stringBody]
  · intro cs rest s h
    unfold string at h
    split at h
    · contradiction
    next b after hskip =>
    obtain ⟨bs, hbs, rfl⟩ := exists_blanks hskip
    split at h
    · next hb =>
      obtain ⟨body, hbody, rfl⟩ := stringBody_eq_ok_iff.mp h
      refine ⟨bs, _, hbs, .mk hbody, ?_⟩
      rw [hb]
      simp
    · contradiction

theorem accepts_null (limit : Nat) : Accepts limit null fun w _ => "null".utf8 = w := by
  constructor
  · rintro _ - rfl -
    refine ⟨⟨'n'.toUInt8, "ull".utf8, rfl, by decide, by decide⟩, ?_⟩
    intro bs rest hbs _
    unfold null
    rw [show "null".utf8 ++ rest = 'n'.toUInt8 :: ("ull".toList.map Char.toUInt8 ++ rest) from rfl,
      skipBlanks_append hbs _ (by decide)]
    dsimp only
    rw [if_pos rfl, expectWord_eq_ok_iff.mpr rfl]
    rfl
  · intro cs rest x h
    unfold null at h
    split at h
    · contradiction
    next b after hskip =>
    obtain ⟨bs, hbs, rfl⟩ := exists_blanks hskip
    split at h
    · next hb =>
      obtain ⟨left, hleft, h⟩ := bind_eq_ok.mp h
      obtain ⟨-, rfl⟩ := Prod.mk.inj (Except.ok.inj h)
      refine ⟨bs, _, hbs, rfl, ?_⟩
      rw [hb, expectWord_eq_ok_iff.mp hleft]
      rfl
    · contradiction

theorem reads_variant_object {find? : String → Option α} {name : String} {x : α}
    (known : List String) (hname : find? name = some x) {w : List UInt8}
    (h : Braced [Labelled (Named name) (Eq "null".utf8)] w) : Reads (variant find? known) w x := by
  obtain ⟨hparts⟩ := h
  cases hparts with
  | @part _ sep w more _ _ hsep hmember hmore =>
      obtain @⟨k, before, after, _, hk, hbefore, hafter, rfl⟩ := hmember
      cases hmore with
      | done hmore =>
          refine ⟨⟨_, _, rfl, by decide, by decide⟩, ?_⟩
          intro bs rest hbs _
          have hkey := passes_onlyKey.append hsep
            (k ++ '"'.toUInt8 :: (before ++ ':'.toUInt8 ::
              (after ++ ("null".utf8 ++ (more ++ '\x7d'.toUInt8 :: rest)))))
          have hcolon := passes_colon.append hbefore
            (after ++ ("null".utf8 ++ (more ++ '\x7d'.toUInt8 :: rest)))
          have hended : Ended (more ++ '\x7d'.toUInt8 :: rest) :=
            Ended.blanks_append hmore (ended_cons rest (by decide))
          have hnull := ((accepts_null 5).reads (x := ()) rfl (by decide)).reads hafter hended
          have hbrace : ¬ '\x7b'.toUInt8 = '"'.toUInt8 := by decide
          unfold variant
          simp only [List.cons_append, List.append_assoc, List.nil_append]
          rw [skipBlanks_append hbs _ (by decide)]
          dsimp only
          rw [if_neg hbrace, if_pos rfl, hkey, ok_bind, Unescapes.stringBody hk, ok_bind]
          dsimp only
          rw [hname, ok_bind, hcolon, ok_bind, hnull, ok_bind]
          dsimp only
          rw [skipBlanks_append hmore _ (by decide)]
          dsimp only
          rw [if_pos rfl]
          rfl

theorem accepts_variant (limit : Nat) (find? : String → Option α) (known : List String) :
    Accepts limit (variant find? known)
      fun w x => ∃ name, find? name = some x ∧ Variant w name := by
  constructor
  · rintro w x ⟨name, hname, hw⟩ -
    cases hw with
    | object hw => exact reads_variant_object known hname hw
    | plain hw =>
        obtain @⟨body, _, hbody⟩ := hw
        refine ⟨begins_quote _, ?_⟩
        intro bs rest hbs _
        unfold variant
        rw [List.cons_append, List.append_assoc, List.singleton_append,
          skipBlanks_append hbs _ (by decide)]
        dsimp only
        rw [if_pos rfl, hbody.stringBody, ok_bind]
        dsimp only
        rw [hname]
        rfl
  · intro cs rest x h
    unfold variant at h
    dsimp only at h
    split at h
    · contradiction
    next b after hskip =>
    obtain ⟨bs, hbs, rfl⟩ := exists_blanks hskip
    split at h
    · next hb =>
      obtain ⟨⟨name, left⟩, hstring, h⟩ := bind_eq_ok.mp h
      obtain ⟨y, hy, h⟩ := bind_eq_ok.mp h
      obtain ⟨rfl, rfl⟩ := Prod.mk.inj (Except.ok.inj h)
      obtain ⟨body, hbody, rfl⟩ := stringBody_eq_ok_iff.mp hstring
      split at hy
      · next hname =>
        obtain rfl := Except.ok.inj hy
        refine ⟨bs, _, hbs, ⟨name, hname, .plain (.mk hbody)⟩, ?_⟩
        rw [hb]
        simp
      · contradiction
    split at h
    · next hb =>
      obtain ⟨start, hkey, h⟩ := bind_eq_ok.mp h
      obtain ⟨⟨name, left⟩, hstring, h⟩ := bind_eq_ok.mp h
      obtain ⟨y, hy, h⟩ := bind_eq_ok.mp h
      split at hy
      case h_2 => contradiction
      next hname =>
      obtain rfl := Except.ok.inj hy
      obtain ⟨value, hcolon, h⟩ := bind_eq_ok.mp h
      obtain ⟨⟨_, left'⟩, hnull, hend⟩ := bind_eq_ok.mp h
      obtain ⟨sep, hsep, rfl⟩ := passes_onlyKey.before hkey
      obtain ⟨k, hk, rfl⟩ := stringBody_eq_ok_iff.mp hstring
      obtain ⟨before, hbefore, rfl⟩ := passes_colon.before hcolon
      obtain ⟨between, w, hbetween, rfl, rfl⟩ := (accepts_null 0).spelt hnull
      dsimp only at hend
      split at hend
      · contradiction
      next c after hskip' =>
      obtain ⟨more, hmore, rfl⟩ := exists_blanks hskip'
      split at hend
      · next hc =>
        obtain ⟨rfl, rfl⟩ := Prod.mk.inj (Except.ok.inj hend)
        refine ⟨bs, _, hbs, ⟨name, hname, .object (.mk (.part hsep
          (.mk hk hbefore hbetween rfl) (.done hmore)))⟩, ?_⟩
        rw [hb, hc]
        simp
      · contradiction
    · contradiction

/-! ## Lists -/

/-- `parts` reads the inside of a list for the values in `S`, each of which is a list of its own
parts, and stops before the blanks that may precede the closing bracket. -/
structure Row (limit : Nat) (first : Bool) (S : α → Prop) (parts : Reader α)
    (form : α → List (List UInt8 → Prop)) : Prop where
  reads : ∀ {w : List UInt8} {x : α}, S x → Parts first (form x) w → w.length < limit → ∀ rest,
    ∃ bs, Blanks bs ∧ parts (w ++ ']'.toUInt8 :: rest) = .ok (x, bs ++ ']'.toUInt8 :: rest)
  spelt : ∀ {cs rest : List UInt8} {x : α}, parts cs = .ok (x, rest) →
    S x ∧ ∃ w, cs = w ++ rest ∧ ∀ {bs : List UInt8}, Blanks bs → Parts first (form x) (w ++ bs)

/-- Up to the closing bracket, a list has been read that has just its parts. -/
theorem Row.exists_bracketed {limit : Nat} {S : α → Prop} {parts : Reader α}
    {form : α → List (List UInt8 → Prop)} (h : Row limit true S parts form)
    {cs left rest : List UInt8} {x : α} (hparts : parts cs = .ok (x, left))
    (hend : endList left = .ok rest) :
    ∃ w, Bracketed (form x) w ∧ '['.toUInt8 :: cs = w ++ rest := by
  obtain ⟨-, w, rfl, hw⟩ := h.spelt hparts
  obtain ⟨bs, hbs, rfl⟩ := passes_endList.before hend
  exact ⟨_, .mk (hw hbs), by simp⟩

theorem Row.bracketed {limit : Nat} {parts : Reader α} {form : α → List (List UInt8 → Prop)}
    (h : Row limit true (fun _ => True) parts form) (wanted : String) :
    Accepts limit (bracketed wanted parts) fun w x => Bracketed (form x) w := by
  constructor
  · rintro _ x ⟨hparts⟩ hlimit
    rw [List.length_cons, List.length_append] at hlimit
    exact reads_bracketed wanted (h.reads trivial hparts (by omega))
  · intro cs rest x hx
    unfold Json.bracketed at hx
    split at hx
    · contradiction
    next b after hskip =>
    obtain ⟨bs, hbs, rfl⟩ := exists_blanks hskip
    split at hx
    · next hb =>
      obtain ⟨⟨y, left⟩, hy, hx⟩ := bind_eq_ok.mp hx
      obtain ⟨left', hleft', hx⟩ := bind_eq_ok.mp hx
      obtain ⟨rfl, rfl⟩ := Prod.mk.inj (Except.ok.inj hx)
      obtain ⟨w, hw, hafter⟩ := h.exists_bracketed hy hleft'
      exact ⟨bs, w, hbs, hw, by rw [← hafter, hb]⟩
    · contradiction

/-- A comma parts what follows it from what comes before. -/
theorem exists_comma {cs after more : List UInt8} {c : UInt8}
    (h : skipBlanks cs = ','.toUInt8 :: after) (h' : skipBlanks after = c :: more) :
    ∃ sep, Separates false sep ∧ cs = sep ++ c :: more := by
  obtain ⟨bs, hbs, rfl⟩ := exists_blanks h
  obtain ⟨bs', hbs', rfl⟩ := exists_blanks h'
  exact ⟨bs ++ ','.toUInt8 :: bs', ⟨bs, bs', hbs, hbs', rfl⟩, by simp⟩

theorem exists_separates {first : Bool} {cs start : List UInt8}
    (h : nextElement first cs = .ok (some start)) :
    ∃ sep, Separates first sep ∧ cs = sep ++ start := by
  unfold nextElement at h
  split at h
  · contradiction
  next b after hskip =>
  split at h
  · cases h
  split at h
  · next hfirst =>
    obtain rfl := Option.some.inj (Except.ok.inj h)
    rw [hfirst]
    exact exists_blanks hskip
  next hfirst =>
  split at h
  · next hb =>
    split at h
    · contradiction
    next c more hskip' =>
    split at h
    · contradiction
    · obtain rfl := Option.some.inj (Except.ok.inj h)
      rw [Bool.eq_false_iff.mpr hfirst]
      rw [hb] at hskip
      exact exists_comma hskip hskip'
  · contradiction

/-- The element that follows is read with what separates it. -/
theorem Accepts.exists_part {limit : Nat} {r : Reader α} {form : Form α} (h : Accepts limit r form)
    {first : Bool} {cs start rest : List UInt8} {x : α}
    (hnext : nextElement first cs = .ok (some start)) (hx : r start = .ok (x, rest)) :
    ∃ sep w, Separates first sep ∧ form w x ∧ cs = sep ++ (w ++ rest) := by
  obtain ⟨sep, hsep, rfl⟩ := exists_separates hnext
  obtain ⟨bs, w, hbs, hw, rfl⟩ := h.spelt hx
  exact ⟨sep ++ bs, w, hsep.append hbs, hw, (List.append_assoc _ _ _).symm⟩

/-- The elements of a list of any length. -/
theorem row_elements {limit : Nat} {element : Reader α} {form : Form α}
    (h : Accepts limit element form) :
    Row limit true (fun _ => True) (elements element limit true)
      fun xs => xs.map fun x w => form w x := by
  have hinside : ∀ {xs : List α} {first : Bool} {w : List UInt8},
      Parts first (xs.map fun x w => form w x) w → w.length < limit →
      Inside element first w xs := by
    intro xs
    induction xs with
    | nil =>
        intro first w hw _
        cases hw with
        | done hbs => exact .done hbs
    | cons x xs ih =>
        intro first w hw hlimit
        cases hw with
        | part hsep hx hmore =>
            rw [List.length_append, List.length_append] at hlimit
            exact .part hsep (h.reads hx (by omega)) (ih hmore (by omega))
  have hspelt : ∀ (n : Nat) {first : Bool} {cs rest : List UInt8} {xs : List α},
      elements element n first cs = .ok (xs, rest) →
      ∃ w, cs = w ++ rest ∧ ∀ {bs : List UInt8}, Blanks bs →
        Parts first (xs.map fun x w => form w x) (w ++ bs) := by
    intro n
    induction n with
    | zero =>
        intro first cs rest xs hxs
        contradiction
    | succ n ih =>
        intro first cs rest xs hxs
        rw [elements] at hxs
        obtain ⟨next, hnext, hxs⟩ := bind_eq_ok.mp hxs
        cases next with
        | none =>
            obtain ⟨rfl, rfl⟩ := Prod.mk.inj (Except.ok.inj hxs)
            exact ⟨[], rfl, .done⟩
        | some start =>
            obtain ⟨⟨x, left⟩, hx, hxs⟩ := bind_eq_ok.mp hxs
            obtain ⟨⟨xs', left'⟩, hxs', hxs⟩ := bind_eq_ok.mp hxs
            obtain ⟨rfl, rfl⟩ := Prod.mk.inj (Except.ok.inj hxs)
            obtain ⟨sep, w, hsep, hw, rfl⟩ := h.exists_part hnext hx
            obtain ⟨more, rfl, hmore⟩ := ih hxs'
            refine ⟨sep ++ (w ++ more), by simp only [List.append_assoc], ?_⟩
            intro bs hbs
            rw [List.append_assoc, List.append_assoc]
            exact .part hsep hw (hmore hbs)
  constructor
  · intro w xs _ hw hlimit rest
    exact elements_inside (hinside hw hlimit) rest limit hlimit
  · intro cs rest xs hxs
    exact ⟨trivial, hspelt limit hxs⟩

theorem accepts_listOf {limit : Nat} {element : Reader α} {form : Form α}
    (h : Accepts limit element form) :
    Accepts limit (listOf limit element)
      fun w xs => Bracketed (xs.map fun x w => form w x) w :=
  (row_elements h).bracketed "a sequence"

/-- Nothing more is read once the value is known. -/
theorem Row.nil (limit : Nat) (first : Bool) {S : α → Prop} {x : α} (hS : ∀ y, S y ↔ y = x) :
    Row limit first S (fun cs => return (x, cs)) fun _ => [] := by
  constructor
  · intro w y hy hw _ rest
    obtain rfl := (hS y).mp hy
    cases hw with
    | done hbs => exact ⟨w, hbs, rfl⟩
  · intro cs rest y hy
    obtain ⟨rfl, rfl⟩ := Prod.mk.inj (Except.ok.inj hy)
    exact ⟨(hS x).mpr rfl, [], rfl, .done⟩

/-- One element is read, and then what it leaves to be read. -/
theorem Row.cons {limit i : Nat} {first : Bool} {wanted : String} {S : α → Prop} {p : α → β}
    {r : Reader β} {form : Form β} {next : β × List UInt8 → Except Error (α × List UInt8)}
    {parts : α → List (List UInt8 → Prop)} (hfirst : (i == 0) = first) (h : Accepts limit r form)
    (hnext : ∀ b, Row limit false (fun x => S x ∧ p x = b) (fun cs => next (b, cs)) parts) :
    Row limit first S (fun cs => elementAt wanted i r cs >>= next)
      fun x => (fun w => form w (p x)) :: parts x := by
  subst hfirst
  constructor
  · intro w x hS hw hlimit rest
    cases hw with
    | @part _ sep w more _ _ hsep hx hmore =>
        rw [List.length_append, List.length_append] at hlimit
        obtain ⟨bs, hbs, hrest⟩ := (hnext (p x)).reads ⟨hS, rfl⟩ hmore (by omega) rest
        have hended : Ended (more ++ ']'.toUInt8 :: rest) :=
          hmore.ended (ended_cons rest (by decide))
        have helement := elementAt_part wanted hsep (h.reads hx (by omega)) hended
        refine ⟨bs, hbs, ?_⟩
        rw [List.append_assoc, List.append_assoc, helement]
        exact hrest
  · intro cs rest x hx
    obtain ⟨⟨b, left⟩, helement, hx⟩ := bind_eq_ok.mp hx
    obtain ⟨⟨hS, hb⟩, more, rfl, hmore⟩ := (hnext b).spelt hx
    unfold elementAt at helement
    obtain ⟨start, hstart, helement⟩ := bind_eq_ok.mp helement
    cases start with
    | none => contradiction
    | some start =>
        obtain ⟨sep, w, hsep, hw, rfl⟩ := h.exists_part hstart helement
        refine ⟨hS, sep ++ (w ++ more), by simp only [List.append_assoc], ?_⟩
        intro bs hbs
        rw [List.append_assoc, List.append_assoc]
        exact .part hsep (by rwa [hb]) (hmore hbs)

/-! ## Documents -/

/-- **A document is a value of the form that is wanted, with nothing but blanks around it.** -/
theorem document_eq_ok_iff {value : Nat → Reader α} {form : Form α}
    (h : ∀ limit, Accepts limit (value limit) form) {cs : List UInt8} {x : α} :
    document value cs = .ok x ↔
      ∃ bs w bs', Blanks bs ∧ form w x ∧ Blanks bs' ∧ cs = bs ++ (w ++ bs') := by
  constructor
  · intro hx
    unfold document at hx
    obtain ⟨⟨y, rest⟩, hy, hx⟩ := bind_eq_ok.mp hx
    dsimp only at hx
    split at hx
    · next hempty =>
      obtain rfl := Except.ok.inj hx
      obtain ⟨bs, w, hbs, hw, rfl⟩ := (h _).spelt hy
      exact ⟨bs, w, rest, hbs, hw, blanks_of_skipBlanks (List.isEmpty_iff.mp hempty), rfl⟩
    · contradiction
  · rintro ⟨bs, w, bs', hbs, hw, hbs', rfl⟩
    have hended : Ended bs' := by
      have := Ended.blanks_append hbs' (fun _ hb => absurd hb (by simp) : Ended [])
      rwa [List.append_nil] at this
    have hlimit : w.length < (bs ++ (w ++ bs')).length + 1 := by
      rw [List.length_append, List.length_append]
      omega
    unfold document
    rw [((h _).reads hw hlimit).reads hbs hended, ok_bind]
    dsimp only
    rw [skipBlanks_of_blanks hbs']
    rfl

end Json

end Reserved
