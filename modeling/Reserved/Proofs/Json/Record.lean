import Mathlib.Data.List.Nodup
import Reserved.Proofs.Json.Accepts

/-!
# Records

An object of fields is read into a state that has a place for each of them. What is still to be
read must be, for every field, either its only member or none, according to whether its place is
still free; `Awaits` says so, and holds step by step while the members are read in whatever order
they come. From the first state every field is awaited, at the last none is.
-/

namespace Reserved

namespace Json

variable {α σ : Type}

theorem required_eq_ok_iff {name : String} {o : Option α} {x : α} :
    required name o = .ok x ↔ o = some x := by
  cases o with
  | none => exact ⟨fun h => by contradiction, fun h => by contradiction⟩
  | some y =>
      exact ⟨fun h => congrArg some (Except.ok.inj h), fun h => congrArg _ (Option.some.inj h)⟩

/-- A field of the record `α`, and its place in the state `σ` that the fields are read into. -/
structure Cell (σ α : Type) where
  {β : Type}
  name : String
  value : Reader β
  form : Form β
  get : σ → Option β
  set : β → σ → σ
  part : α → β

/-- The field as it is in a record. -/
def Cell.field (x : α) (c : Cell σ α) : Field :=
  ⟨c.name, fun w => c.form w (c.part x)⟩

/-- Of each of the cells `field` reads the value into its place, once; other members it passes
over. -/
structure Places (limit : Nat) (field : String → σ → Reader σ) (cells : List (Cell σ α)) :
    Prop where
  distinct : (cells.map Cell.name).Nodup
  accepts : ∀ c ∈ cells, Accepts limit c.value c.form
  known : ∀ c ∈ cells, ∀ (s : σ) (cs : List UInt8), field c.name s cs = (do
    let (v, rest) ← fieldValue c.name (c.get s).isSome c.value cs
    return (c.set v s, rest))
  unknown : ∀ {name : String}, name ∉ cells.map Cell.name →
    ∀ s : σ, field name s = unknownField limit s
  get_set : ∀ c ∈ cells, ∀ v s, c.get (c.set v s) = some v
  get_set_ne : ∀ c ∈ cells, ∀ c' ∈ cells, c.name ≠ c'.name → ∀ v s, c'.get (c.set v s) = c'.get s

/-- The members `ms` are what is still missing of the field `c` of `x` in the state `s`. -/
inductive Awaits (x : α) (s : σ) (ms : List (String × List UInt8)) (c : Cell σ α) : Prop
  | ahead {v : List UInt8} : c.get s = none →
      ms.filter (fun m => m.1 = c.name) = [(c.name, v)] → c.form v (c.part x) → Awaits x s ms c
  | taken : c.get s = some (c.part x) → ms.filter (fun m => m.1 = c.name) = [] → Awaits x s ms c

theorem awaits_cons_of_ne {x : α} {s : σ} {ms : List (String × List UInt8)} {c : Cell σ α}
    {name : String} (h : name ≠ c.name) (v : List UInt8) :
    Awaits x s ((name, v) :: ms) c ↔ Awaits x s ms c := by
  have hfilter : ((name, v) :: ms).filter (fun m => m.1 = c.name)
      = ms.filter (fun m => m.1 = c.name) :=
    List.filter_cons_of_neg (by simpa using h)
  constructor
  · intro hawaits
    cases hawaits with
    | ahead hfree hms hform => exact .ahead hfree (hfilter ▸ hms) hform
    | taken hset hms => exact .taken hset (hfilter ▸ hms)
  · intro hawaits
    cases hawaits with
    | ahead hfree hms hform => exact .ahead hfree (hfilter.trans hms) hform
    | taken hset hms => exact .taken hset (hfilter.trans hms)

theorem awaits_of_get_eq {x : α} {s s' : σ} {ms : List (String × List UInt8)} {c : Cell σ α}
    (h : c.get s' = c.get s) (hawaits : Awaits x s ms c) : Awaits x s' ms c := by
  cases hawaits with
  | ahead hfree hms hform => exact .ahead (h.trans hfree) hms hform
  | taken hset hms => exact .taken (h.trans hset) hms

/-- The member of a field that is awaited is its only one. -/
theorem Awaits.member {x : α} {s : σ} {ms : List (String × List UInt8)} {c : Cell σ α}
    {v : List UInt8} (h : Awaits x s ((c.name, v) :: ms) c) :
    c.get s = none ∧ c.form v (c.part x) ∧ ms.filter (fun m => m.1 = c.name) = [] := by
  have hfilter : ((c.name, v) :: ms).filter (fun m => m.1 = c.name)
      = (c.name, v) :: ms.filter (fun m => m.1 = c.name) :=
    List.filter_cons_of_pos (by simp)
  cases h with
  | ahead hfree hms hform =>
      rw [hfilter, List.cons.injEq] at hms
      obtain ⟨hv, hnone⟩ := hms
      obtain rfl := (Prod.mk.inj hv).2
      exact ⟨hfree, hform, hnone⟩
  | taken _ hms =>
      rw [hfilter] at hms
      contradiction

/-- Once its value stands in its place, nothing may follow of a field. -/
theorem Awaits.before {x : α} {s s' : σ} {ms : List (String × List UInt8)} {c : Cell σ α}
    {v : List UInt8} {y : c.β} (h : Awaits x s' ms c) (hfree : c.get s = none)
    (hset : c.get s' = some y) (hform : c.form v y) : Awaits x s ((c.name, v) :: ms) c := by
  cases h with
  | ahead hfree' _ _ =>
      rw [hset] at hfree'
      contradiction
  | taken hset' hms =>
      obtain rfl := Option.some.inj (hset.symm.trans hset')
      refine .ahead hfree ?_ hform
      rw [List.filter_cons_of_pos (by simp), hms]

namespace Places

variable {limit : Nat} {field : String → σ → Reader σ} {cells : List (Cell σ α)}

/-- Cells of the same name are the same. -/
theorem eq_of_name (h : Places limit field cells) {c c' : Cell σ α} (hc : c ∈ cells)
    (hc' : c' ∈ cells) (hname : c.name = c'.name) : c = c' :=
  List.inj_on_of_nodup_map h.distinct hc hc' hname

/-- A member that is awaited is read, and then one less is. -/
theorem reads_member (h : Places limit field cells) {x : α} {s : σ} {name : String}
    {v : List UInt8} {ms : List (String × List UInt8)}
    (hawaits : ∀ c ∈ cells, Awaits x s ((name, v) :: ms) c)
    (hvalue : name ∉ cells.map Cell.name → Value v) (hlimit : v.length < limit)
    {bs bs' rest : List UInt8} (hbs : Blanks bs) (hbs' : Blanks bs') (hrest : Ended rest) :
    ∃ s', field name s (bs ++ ':'.toUInt8 :: (bs' ++ (v ++ rest))) = .ok (s', rest) ∧
      ∀ c ∈ cells, Awaits x s' ms c := by
  by_cases hname : name ∈ cells.map Cell.name
  · obtain ⟨c, hc, rfl⟩ := List.mem_map.mp hname
    obtain ⟨hfree, hform, hms⟩ := (hawaits c hc).member
    have hread := fieldValue_append c.name hbs hbs' ((h.accepts c hc).reads hform hlimit) hrest
    refine ⟨c.set (c.part x) s, ?_, ?_⟩
    · rw [h.known c hc, hfree, Option.isSome_none, hread]
      rfl
    · intro c' hc'
      by_cases hne : c.name = c'.name
      · obtain rfl := h.eq_of_name hc hc' hne
        exact .taken (h.get_set c hc _ s) hms
      · exact awaits_of_get_eq (h.get_set_ne c hc c' hc' hne _ s)
          ((awaits_cons_of_ne hne v).mp (hawaits c' hc'))
  · refine ⟨s, ?_, ?_⟩
    · rw [h.unknown hname, unknownField, passes_colon.append hbs, ok_bind,
        skipValue_append (hvalue hname) hbs' hrest (Nat.le_of_lt hlimit)]
      rfl
    · intro c hc
      have hne : name ≠ c.name := by
        rintro rfl
        exact hname (List.mem_map_of_mem hc)
      exact (awaits_cons_of_ne hne v).mp (hawaits c hc)

/-- A member that has been read was awaited, if what follows it is. -/
theorem exists_member (h : Places limit field cells) {x : α} {s s' : σ} {name : String}
    {ms : List (String × List UInt8)} {cs rest : List UInt8}
    (hread : field name s cs = .ok (s', rest)) (hawaits : ∀ c ∈ cells, Awaits x s' ms c) :
    ∃ bs bs' v, Blanks bs ∧ Blanks bs' ∧ cs = bs ++ ':'.toUInt8 :: (bs' ++ (v ++ rest)) ∧
      (name ∉ cells.map Cell.name → Value v) ∧ ∀ c ∈ cells, Awaits x s ((name, v) :: ms) c := by
  by_cases hname : name ∈ cells.map Cell.name
  · obtain ⟨c, hc, rfl⟩ := List.mem_map.mp hname
    rw [h.known c hc] at hread
    obtain ⟨⟨y, left⟩, hy, hread⟩ := bind_eq_ok.mp hread
    obtain ⟨rfl, rfl⟩ := Prod.mk.inj (Except.ok.inj hread)
    unfold fieldValue at hy
    split at hy
    · contradiction
    next hfree =>
    obtain ⟨after, hcolon, hvalue⟩ := bind_eq_ok.mp hy
    obtain ⟨bs, hbs, rfl⟩ := passes_colon.before hcolon
    obtain ⟨bs', v, hbs', hv, rfl⟩ := (h.accepts c hc).spelt hvalue
    refine ⟨bs, bs', v, hbs, hbs', rfl, fun hnew => absurd hname hnew, ?_⟩
    intro c' hc'
    by_cases hne : c.name = c'.name
    · obtain rfl := h.eq_of_name hc hc' hne
      exact (hawaits c hc).before (by simpa using hfree) (h.get_set c hc y s) hv
    · exact (awaits_cons_of_ne hne v).mpr
        (awaits_of_get_eq (h.get_set_ne c hc c' hc' hne y s).symm (hawaits c' hc'))
  · rw [h.unknown hname] at hread
    unfold unknownField at hread
    obtain ⟨after, hcolon, hread⟩ := bind_eq_ok.mp hread
    obtain ⟨left, hskip, hread⟩ := bind_eq_ok.mp hread
    obtain ⟨rfl, rfl⟩ := Prod.mk.inj (Except.ok.inj hread)
    obtain ⟨bs, hbs, rfl⟩ := passes_colon.before hcolon
    obtain ⟨bs', v, hbs', hv, rfl⟩ := exists_value hskip
    refine ⟨bs, bs', v, hbs, hbs', rfl, fun _ => hv, ?_⟩
    intro c hc
    have hne : name ≠ c.name := by
      rintro rfl
      exact hname (List.mem_map_of_mem hc)
    exact (awaits_cons_of_ne hne v).mpr (hawaits c hc)

/-! ## Objects -/

/-- An object that has what is awaited is read up to a state that has every field. -/
theorem reads_members (h : Places limit field cells) {x : α} {ms : List (String × List UInt8)}
    (hvalue : ∀ m ∈ ms, m.1 ∉ cells.map Cell.name → Value m.2) (rest : List UInt8) :
    ∀ {first : Bool} {s : σ} {inner : List UInt8} {n : Nat}, Parts first (memberForms ms) inner →
      (∀ c ∈ cells, Awaits x s ms c) → inner.length < limit → inner.length < n →
      ∃ s', (∀ c ∈ cells, c.get s' = some (c.part x)) ∧
        object field n first s (inner ++ '\x7d'.toUInt8 :: rest) = .ok (s', rest) := by
  induction ms with
  | nil =>
      intro first s inner n hparts hawaits _ hn
      cases hparts with
      | done hbs =>
          obtain ⟨n, rfl⟩ : ∃ k, n = k + 1 := ⟨n - 1, by omega⟩
          refine ⟨s, ?_, ?_⟩
          · intro c hc
            cases hawaits c hc with
            | ahead _ hms _ => contradiction
            | taken hset _ => exact hset
          · rw [object, nextKey_done first hbs]
            rfl
  | cons m ms ih =>
      intro first s inner n hparts hawaits hlimit hn
      cases hparts with
      | @part _ sep w more _ _ hsep hmember hmore =>
          obtain @⟨k, bs, bs', v, hk, hbs, hbs', rfl⟩ := hmember
          simp only [List.length_append, List.length_cons] at hlimit hn
          obtain ⟨n, rfl⟩ : ∃ k, n = k + 1 := ⟨n - 1, by omega⟩
          have hended : Ended (more ++ '\x7d'.toUInt8 :: rest) :=
            hmore.ended (ended_cons rest (by decide))
          obtain ⟨s', hread, hawaits'⟩ := h.reads_member hawaits (hvalue m List.mem_cons_self)
            (by omega) hbs hbs' hended
          obtain ⟨s'', hset, hrest⟩ := ih (fun m hm => hvalue m (List.mem_cons_of_mem _ hm))
            hmore hawaits' (by omega) (n := n) (by omega)
          refine ⟨s'', hset, ?_⟩
          simp only [List.append_assoc, List.cons_append]
          rw [object, nextKey_part hsep, ok_bind]
          dsimp only
          rw [Unescapes.stringBody hk, ok_bind]
          dsimp only
          rw [hread, ok_bind]
          exact hrest

theorem exists_nextKey {first : Bool} {cs start : List UInt8}
    (h : nextKey first cs = .ok (.key start)) :
    ∃ sep, Separates first sep ∧ cs = sep ++ '"'.toUInt8 :: start := by
  unfold nextKey at h
  split at h
  · contradiction
  next b after hskip =>
  split at h
  · cases h
  split at h
  · next hfirst =>
    split at h
    · next hb =>
      obtain rfl := Next.key.inj (Except.ok.inj h)
      rw [hfirst]
      rw [hb] at hskip
      exact exists_blanks hskip
    · contradiction
  next hfirst =>
  split at h
  · next hb =>
    split at h
    · contradiction
    next c more hskip' =>
    split at h
    · next hc =>
      obtain rfl := Next.key.inj (Except.ok.inj h)
      rw [Bool.eq_false_iff.mpr hfirst]
      rw [hb] at hskip
      rw [hc] at hskip'
      exact exists_comma hskip hskip'
    split at h <;> contradiction
  · contradiction

theorem exists_lastKey {first : Bool} {cs rest : List UInt8}
    (h : nextKey first cs = .ok (.done rest)) :
    ∃ bs, Blanks bs ∧ cs = bs ++ '\x7d'.toUInt8 :: rest := by
  unfold nextKey at h
  split at h
  · contradiction
  next b after hskip =>
  split at h
  · next hb =>
    obtain rfl := Next.done.inj (Except.ok.inj h)
    rw [hb] at hskip
    exact exists_blanks hskip
  split at h
  · split at h <;> cases h
  split at h
  · split at h
    · contradiction
    split at h
    · cases h
    split at h <;> contradiction
  · contradiction

/-- An object that has been read up to a state that has every field had what was awaited. -/
theorem exists_members (h : Places limit field cells) {x : α} (n : Nat) :
    ∀ {first : Bool} {s s' : σ} {cs rest : List UInt8},
      object field n first s cs = .ok (s', rest) → (∀ c ∈ cells, c.get s' = some (c.part x)) →
      ∃ ms inner, Parts first (memberForms ms) inner ∧
        (∀ m ∈ ms, m.1 ∉ cells.map Cell.name → Value m.2) ∧
        (∀ c ∈ cells, Awaits x s ms c) ∧ cs = inner ++ '\x7d'.toUInt8 :: rest := by
  induction n with
  | zero =>
      intro first s s' cs rest hobject _
      contradiction
  | succ n ih =>
      intro first s s' cs rest hobject hset
      rw [object] at hobject
      obtain ⟨next, hnext, hobject⟩ := bind_eq_ok.mp hobject
      cases next with
      | done rest' =>
          obtain ⟨rfl, rfl⟩ := Prod.mk.inj (Except.ok.inj hobject)
          obtain ⟨bs, hbs, rfl⟩ := exists_lastKey hnext
          exact ⟨[], bs, .done hbs, fun m hm => absurd hm List.not_mem_nil,
            fun c hc => .taken (hset c hc) rfl, rfl⟩
      | key start =>
          obtain ⟨⟨name, left⟩, hname, hobject⟩ := bind_eq_ok.mp hobject
          obtain ⟨⟨s₁, left₁⟩, hread, hobject⟩ := bind_eq_ok.mp hobject
          obtain ⟨ms, inner, hparts, hvalue, hawaits, rfl⟩ := ih hobject hset
          obtain ⟨bs, bs', v, hbs, hbs', rfl, hnew, hawaits'⟩ := h.exists_member hread hawaits
          obtain ⟨k, hk, rfl⟩ := stringBody_eq_ok_iff.mp hname
          obtain ⟨sep, hsep, rfl⟩ := exists_nextKey hnext
          have hmember : Labelled (Named name) (Eq v) _ := .mk hk hbs hbs' rfl
          refine ⟨(name, v) :: ms, _, .part hsep hmember hparts, ?_, hawaits', ?_⟩
          · intro m hm
            rcases List.mem_cons.mp hm with rfl | hm
            · exact hnew
            · exact hvalue m hm
          · simp only [List.append_assoc, List.cons_append]

/-! ## Records -/

/-- **A record is accepted in either of its forms**, as the list of its fields in their order and
as an object that has each of them once. -/
theorem accepts_record (h : Places limit field cells) {free : σ} {full : α → σ}
    (hfree : ∀ c ∈ cells, c.get free = none)
    (hfull : ∀ {s x}, (∀ c ∈ cells, c.get s = some (c.part x)) ↔ s = full x)
    {inOrder byName : Reader α}
    (hinOrder : Row limit true (fun _ => True) inOrder fun x =>
      (cells.map (Cell.field x)).map Field.form)
    (hbyName : ∀ {cs x rest}, byName cs = .ok (x, rest) ↔
      object field limit true free cs = .ok (full x, rest)) (wanted : String) :
    Accepts limit (record wanted inOrder byName)
      fun w x => Record (cells.map (Cell.field x)) w := by
  have hnames : ∀ x, (cells.map (Cell.field x)).map Field.name = cells.map Cell.name := by
    intro x
    rw [List.map_map]
    rfl
  constructor
  · intro w x hw hlimit
    cases hw with
    | inOrder hw =>
        obtain @⟨inner, hparts⟩ := hw
        rw [List.length_cons, List.length_append] at hlimit
        refine ⟨begins_bracket _, ?_⟩
        intro bs rest hbs _
        obtain ⟨bs', hbs', hread⟩ := hinOrder.reads trivial hparts (by omega) rest
        unfold record
        rw [List.cons_append, List.append_assoc, List.singleton_append,
          skipBlanks_append hbs _ (by decide)]
        dsimp only
        rw [if_pos rfl, hread, ok_bind]
        dsimp only
        rw [passes_endList.append hbs']
        rfl
    | @byName ms _ hfields hvalue hw =>
        obtain @⟨inner, hparts⟩ := hw
        rw [List.length_cons, List.length_append] at hlimit
        rw [hnames] at hvalue
        refine reads_record wanted inOrder fun rest => hbyName.mpr ?_
        have hawaits : ∀ c ∈ cells, Awaits x free ms c := by
          intro c hc
          obtain ⟨v, hms, hv⟩ := hfields _ (List.mem_map_of_mem hc)
          exact .ahead (hfree c hc) hms hv
        obtain ⟨s, hset, hobject⟩ :=
          h.reads_members hvalue rest hparts hawaits (by omega) (n := limit) (by omega)
        rwa [hfull.mp hset] at hobject
  · intro cs rest x hx
    unfold record at hx
    split at hx
    · contradiction
    next b after hskip =>
    obtain ⟨bs, hbs, rfl⟩ := exists_blanks hskip
    split at hx
    · next hb =>
      obtain ⟨⟨y, left⟩, hy, hx⟩ := bind_eq_ok.mp hx
      obtain ⟨left', hend, hx⟩ := bind_eq_ok.mp hx
      obtain ⟨rfl, rfl⟩ := Prod.mk.inj (Except.ok.inj hx)
      obtain ⟨w, hw, hafter⟩ := hinOrder.exists_bracketed hy hend
      exact ⟨bs, w, hbs, .inOrder hw, by rw [hb, hafter]⟩
    split at hx
    · next hb =>
      obtain ⟨ms, inner, hparts, hvalue, hawaits, rfl⟩ :=
        h.exists_members limit (hbyName.mp hx) (hfull.mpr rfl)
      have hfields : ∀ f ∈ cells.map (Cell.field x), ∃ v,
          ms.filter (fun m => m.1 = f.name) = [(f.name, v)] ∧ f.form v := by
        intro f hf
        obtain ⟨c, hc, rfl⟩ := List.mem_map.mp hf
        cases hawaits c hc with
        | ahead _ hms hform => exact ⟨_, hms, hform⟩
        | taken hset _ =>
            rw [hfree c hc] at hset
            contradiction
      rw [← hnames x] at hvalue
      refine ⟨bs, _, hbs, .byName hfields hvalue (.mk hparts), ?_⟩
      rw [hb]
      simp
    · contradiction

end Places

end Json

end Reserved
