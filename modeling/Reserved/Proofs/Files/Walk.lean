import Reserved.Files.Step

/-!
# Where a path leads

A look-up goes from one directory to the next and follows links on its way. `Walks` says so
step by step, of any view of what stands at each location: of a file system as it is, or as it
will be once the directories that are missing have been made.

A walk that ends in a directory has passed through directories and links alone. So it stays
what it is under every change to other entries, and two views that agree on these two kinds of
entries lead to the same place.
-/

namespace Reserved

namespace FileSystem

/-- What stands at each location. -/
abbrev View := Location → Option Entry

/-- A step that names an entry of the directory it is taken in. -/
structure IsName (name : String) : Prop where
  ne_empty : name ≠ ""
  ne_dot : name ≠ "."
  ne_dots : name ≠ ".."

instance (name : String) : Decidable (IsName name) :=
  decidable_of_iff (name ≠ "" ∧ name ≠ "." ∧ name ≠ "..")
    ⟨fun h => ⟨h.1, h.2.1, h.2.2⟩, fun h => ⟨h.ne_empty, h.ne_dot, h.ne_dots⟩⟩

/-- Entries that a look-up goes through. -/
inductive Passable : Entry → Prop
  | directory : Passable .directory
  | link (target : String) : Passable (.link target)

/-- From `here` the steps lead to `found`, with at most so many links on the way. -/
inductive Walks (view : View) (purpose : Purpose) :
    Nat → Location → List String → Found → Prop
  | here {n : Nat} {here : Location} {e : Entry} : view here = some e →
      Walks view purpose n here [] (.entry here e)
  | stay {n : Nat} {here : Location} {name : String} {rest : List String} {found : Found} :
      view here = some .directory → name = "" ∨ name = "." → Walks view purpose n here rest found →
      Walks view purpose n here (name :: rest) found
  | up {n : Nat} {here : Location} {rest : List String} {found : Found} :
      view here = some .directory → Walks view purpose n here.dropLast rest found →
      Walks view purpose n here (".." :: rest) found
  | free {n : Nat} {here : Location} {name : String} :
      view here = some .directory → IsName name → name.utf8.length ≤ 255 →
      view (here ++ [name]) = none → Walks view purpose n here [name] (.free (here ++ [name]))
  | down {n : Nat} {here : Location} {name : String} {rest : List String} {e : Entry}
      {found : Found} :
      view here = some .directory → IsName name → name.utf8.length ≤ 255 →
      ¬ (purpose = .making ∧ rest = [""]) → view (here ++ [name]) = some e →
      (∀ target, e ≠ .link target) → Walks view purpose n (here ++ [name]) rest found →
      Walks view purpose n here (name :: rest) found
  | link {n : Nat} {here : Location} {name target : String} :
      view here = some .directory → IsName name → name.utf8.length ≤ 255 → purpose = .itself →
      view (here ++ [name]) = some (.link target) →
      Walks view purpose n here [name] (.entry (here ++ [name]) (.link target))
  | follow {n : Nat} {here : Location} {name target : String} {rest : List String}
      {found : Found} :
      view here = some .directory → IsName name → name.utf8.length ≤ 255 →
      ¬ (purpose = .making ∧ rest = [""]) → ¬ (rest = [] ∧ purpose = .itself) →
      view (here ++ [name]) = some (.link target) →
      Walks view purpose n (if Path.isAbsolute target then [] else here)
        (Path.steps target ++ rest) found →
      Walks view purpose (n + 1) here (name :: rest) found

variable {fs : FileSystem} {purpose : Purpose}

/-! ## Look-ups are walks -/

/-- What follows a link with `n` more links to go. -/
def onward (fs : FileSystem) (purpose : Purpose) :
    Nat → Location → String → List String → Except FileError Found
  | 0, _, _, _ => .error .tooManyLinks
  | n + 1, here, target, rest =>
    fs.walkLinks purpose n (if Path.isAbsolute target then [] else here) (Path.steps target ++ rest)

theorem walkLinks_eq_walk (fs : FileSystem) (purpose : Purpose) (n : Nat) :
    fs.walkLinks purpose n = fs.walk purpose (fs.onward purpose n) := by
  cases n <;> rfl

section

variable {here : Location} {name : String} (hhere : fs.get? here = some .directory)
  {onLink : Location → String → List String → Except FileError Found} (rest : List String)
include hhere

theorem walk_stay (hname : name = "" ∨ name = ".") :
    fs.walk purpose onLink here (name :: rest) = fs.walk purpose onLink here rest := by
  rw [walk, hhere]
  exact if_pos hname

theorem walk_up :
    fs.walk purpose onLink here (".." :: rest) = fs.walk purpose onLink here.dropLast rest := by
  have hstay : ¬ (".." = "" ∨ ".." = ".") := by decide
  rw [walk, hhere]
  dsimp only
  rw [if_neg hstay, if_pos rfl]

/-- A name is looked up in the directory, unless a file was to be made for a name before a
slash or the name is too long. -/
theorem walk_name (hname : IsName name) :
    fs.walk purpose onLink here (name :: rest) =
      if purpose = .making ∧ rest = [""] then .error .isADirectory
      else if 255 < name.utf8.length then .error .nameTooLong
      else match fs.get? (here ++ [name]) with
        | none => if rest.isEmpty then .ok (.free (here ++ [name])) else .error .notFound
        | some (.link target) =>
          if rest.isEmpty && purpose == .itself then
            .ok (.entry (here ++ [name]) (.link target))
          else onLink here target rest
        | some _ => fs.walk purpose onLink (here ++ [name]) rest := by
  have hstay : ¬ (name = "" ∨ name = ".") := fun h => h.elim hname.ne_empty hname.ne_dot
  rw [walk, hhere]
  dsimp only
  rw [if_neg hstay]
  exact if_neg hname.ne_dots

end

theorem directory_of_walk {onLink : Location → String → List String → Except FileError Found}
    {here : Location} {name : String} {rest : List String} {found : Found}
    (h : fs.walk purpose onLink here (name :: rest) = .ok found) :
    fs.get? here = some .directory := by
  rw [walk] at h
  split at h
  · next hhere => exact hhere
  · contradiction
  · contradiction

/-- A look-up that finds something walks there, if what follows a link does. -/
theorem walks_of_walk {n : Nat}
    (honward : ∀ {here : Location} {target : String} {rest : List String} {found : Found},
      fs.onward purpose n here target rest = .ok found → ∃ m, n = m + 1 ∧
        Walks fs.get? purpose m (if Path.isAbsolute target then [] else here)
          (Path.steps target ++ rest) found) :
    ∀ (steps : List String) (here : Location) {found : Found},
      fs.walk purpose (fs.onward purpose n) here steps = .ok found →
      Walks fs.get? purpose n here steps found := by
  intro steps
  induction steps with
  | nil =>
      intro here found h
      rw [walk] at h
      split at h
      · next e he => exact Except.ok.inj h ▸ .here he
      · contradiction
  | cons name rest ih =>
      intro here found h
      have hhere := directory_of_walk h
      by_cases hstay : name = "" ∨ name = "."
      · rw [walk_stay hhere rest hstay] at h
        exact .stay hhere hstay (ih _ h)
      by_cases hup : name = ".."
      · subst hup
        rw [walk_up hhere rest] at h
        exact .up hhere (ih _ h)
      have hname : IsName name := ⟨fun h => hstay (.inl h), fun h => hstay (.inr h), hup⟩
      rw [walk_name hhere rest hname] at h
      split at h
      · contradiction
      next hmaking =>
      split at h
      · contradiction
      next hlength =>
      have hlength : name.utf8.length ≤ 255 := Nat.le_of_not_lt hlength
      split at h
      · next hnone =>
        split at h
        · next hrest =>
          obtain rfl := List.isEmpty_iff.mp hrest
          exact Except.ok.inj h ▸ .free hhere hname hlength hnone
        · contradiction
      · next target hlink =>
        split at h
        · next hitself =>
          obtain ⟨hrest, hpurpose⟩ := Bool.and_eq_true_iff.mp hitself
          obtain rfl := List.isEmpty_iff.mp hrest
          exact Except.ok.inj h ▸ .link hhere hname hlength (by simpa using hpurpose) hlink
        · next hitself =>
          obtain ⟨m, rfl, hwalks⟩ := honward h
          refine .follow hhere hname hlength hmaking ?_ hlink hwalks
          rintro ⟨rfl, rfl⟩
          exact hitself rfl
      · next e hnolink he =>
        exact .down hhere hname hlength hmaking he hnolink (ih _ h)

theorem walks_of_walkLinks (n : Nat) : ∀ {here : Location} {steps : List String} {found : Found},
    fs.walkLinks purpose n here steps = .ok found → Walks fs.get? purpose n here steps found := by
  induction n with
  | zero =>
      intro here steps found h
      rw [walkLinks_eq_walk] at h
      refine walks_of_walk ?_ steps here h
      intro _ _ _ _ h
      contradiction
  | succ n ih =>
      intro here steps found h
      rw [walkLinks_eq_walk] at h
      exact walks_of_walk (fun h => ⟨n, rfl, ih h⟩) steps here h

theorem walkLinks_of_walks {n : Nat} {here : Location} {steps : List String} {found : Found}
    (h : Walks fs.get? purpose n here steps found) :
    fs.walkLinks purpose n here steps = .ok found := by
  induction h with
  | here he => rw [walkLinks_eq_walk, walk, he]
  | stay hhere hstay _ ih => rwa [walkLinks_eq_walk, walk_stay hhere _ hstay, ← walkLinks_eq_walk]
  | up hhere _ ih => rwa [walkLinks_eq_walk, walk_up hhere, ← walkLinks_eq_walk]
  | free hhere hname hlength hnone =>
      rw [walkLinks_eq_walk, walk_name hhere _ hname, if_neg (by simp), if_neg (by omega), hnone]
      rfl
  | @down n here name rest e found hhere hname hlength hmaking he hnolink _ ih =>
      rw [walkLinks_eq_walk, walk_name hhere _ hname, if_neg hmaking, if_neg (by omega), he]
      cases e with
      | link target => exact absurd rfl (hnolink target)
      | _ => rwa [walkLinks_eq_walk] at ih
  | link hhere hname hlength hpurpose hlink =>
      rw [walkLinks_eq_walk, walk_name hhere _ hname, if_neg (by simp), if_neg (by omega), hlink,
        hpurpose]
      rfl
  | @follow n here name target rest found hhere hname hlength hmaking hitself hlink _ ih =>
      rw [walkLinks_eq_walk, walk_name hhere _ hname, if_neg hmaking, if_neg (by omega), hlink]
      dsimp only
      rw [if_neg (by simpa using hitself)]
      exact ih

/-- **A look-up finds what the steps of the path lead to.** -/
theorem walkLinks_eq_ok_iff {n : Nat} {here : Location} {steps : List String} {found : Found} :
    fs.walkLinks purpose n here steps = .ok found ↔ Walks fs.get? purpose n here steps found :=
  ⟨walks_of_walkLinks n, walkLinks_of_walks⟩

/-! ## Walks to a directory -/

/-- A step that names no entry: it leads nowhere else. -/
def IsIdle (name : String) : Prop :=
  name = "" ∨ name = "."

theorem IsName.not_idle {name : String} (h : IsName name) : ¬ IsIdle name :=
  fun hidle => hidle.elim h.ne_empty h.ne_dot

/-- From `here` the steps lead to the directory `dir`. Of the `n` links that may be followed,
`m` are left. -/
inductive Leads (view : View) : Nat → Location → List String → Location → Nat → Prop
  | stop {n : Nat} {here : Location} : view here = some .directory → Leads view n here [] here n
  | stay {n m : Nat} {here dir : Location} {name : String} {rest : List String} :
      view here = some .directory → IsIdle name → Leads view n here rest dir m →
      Leads view n here (name :: rest) dir m
  | up {n m : Nat} {here dir : Location} {rest : List String} :
      view here = some .directory → Leads view n here.dropLast rest dir m →
      Leads view n here (".." :: rest) dir m
  | down {n m : Nat} {here dir : Location} {name : String} {rest : List String} :
      view here = some .directory → IsName name → name.utf8.length ≤ 255 →
      Leads view n (here ++ [name]) rest dir m → Leads view n here (name :: rest) dir m
  | follow {n m : Nat} {here dir : Location} {name target : String} {rest : List String} :
      view here = some .directory → IsName name → name.utf8.length ≤ 255 →
      view (here ++ [name]) = some (.link target) →
      Leads view n (if Path.isAbsolute target then [] else here) (Path.steps target ++ rest) dir m →
      Leads view (n + 1) here (name :: rest) dir m

variable {view view' : View} {n m k : Nat} {here mid dir dir' : Location} {steps : List String}
  {before after : List String} {name : String} {found : Found}

/-- A walk to a directory starts from one. -/
theorem Leads.start (h : Leads view n here steps dir m) : view here = some .directory := by
  cases h with
  | stop h => exact h
  | stay h _ _ => exact h
  | up h _ => exact h
  | down h _ _ _ => exact h
  | follow h _ _ _ _ => exact h

/-- A walk to a directory ends in one. -/
theorem Leads.stop_directory (h : Leads view n here steps dir m) :
    view dir = some .directory := by
  induction h with
  | stop h => exact h
  | stay _ _ _ ih => exact ih
  | up _ _ ih => exact ih
  | down _ _ _ _ ih => exact ih
  | follow _ _ _ _ _ ih => exact ih

theorem Leads.append (h : Leads view n here before mid k) (h' : Leads view k mid after dir m) :
    Leads view n here (before ++ after) dir m := by
  induction h with
  | stop _ => exact h'
  | stay hhere hidle _ ih => exact .stay hhere hidle (ih h')
  | up hhere _ ih => exact .up hhere (ih h')
  | down hhere hname hlength _ ih => exact .down hhere hname hlength (ih h')
  | follow hhere hname hlength hlink _ ih =>
      refine .follow hhere hname hlength hlink ?_
      rw [List.append_eq, ← List.append_assoc]
      exact ih h'

/-- A walk to a directory has come through directories. -/
theorem Leads.split {all : List String} (h : Leads view n here all dir m) :
    ∀ {before after : List String}, all = before ++ after →
    ∃ mid k, Leads view n here before mid k ∧ Leads view k mid after dir m := by
  induction h with
  | stop hhere =>
      intro before after hall
      obtain ⟨rfl, rfl⟩ := List.append_eq_nil_iff.mp hall.symm
      exact ⟨_, _, .stop hhere, .stop hhere⟩
  | stay hhere hidle hrest ih =>
      intro before after hall
      rcases List.cons_eq_append_iff.mp hall with ⟨rfl, rfl⟩ | ⟨before, rfl, htail⟩
      · exact ⟨_, _, .stop hhere, .stay hhere hidle hrest⟩
      · obtain ⟨mid, k, hbefore, hafter⟩ := ih htail
        exact ⟨mid, k, .stay hhere hidle hbefore, hafter⟩
  | up hhere hrest ih =>
      intro before after hall
      rcases List.cons_eq_append_iff.mp hall with ⟨rfl, rfl⟩ | ⟨before, rfl, htail⟩
      · exact ⟨_, _, .stop hhere, .up hhere hrest⟩
      · obtain ⟨mid, k, hbefore, hafter⟩ := ih htail
        exact ⟨mid, k, .up hhere hbefore, hafter⟩
  | down hhere hname hlength hrest ih =>
      intro before after hall
      rcases List.cons_eq_append_iff.mp hall with ⟨rfl, rfl⟩ | ⟨before, rfl, htail⟩
      · exact ⟨_, _, .stop hhere, .down hhere hname hlength hrest⟩
      · obtain ⟨mid, k, hbefore, hafter⟩ := ih htail
        exact ⟨mid, k, .down hhere hname hlength hbefore, hafter⟩
  | follow hhere hname hlength hlink hrest ih =>
      intro before after hall
      rcases List.cons_eq_append_iff.mp hall with ⟨rfl, rfl⟩ | ⟨before, rfl, htail⟩
      · exact ⟨_, _, .stop hhere, .follow hhere hname hlength hlink hrest⟩
      · obtain ⟨mid, k, hbefore, hafter⟩ := ih (by rw [htail, List.append_assoc])
        exact ⟨mid, k, .follow hhere hname hlength hlink hbefore, hafter⟩

/-- A look-up has found the directory that its last steps are taken from. -/
theorem Walks.split {all : List String} (h : Walks view purpose n here all found) :
    ∀ {before after : List String}, after ≠ [] → all = before ++ after →
    ∃ mid k, Leads view n here before mid k ∧ Walks view purpose k mid after found := by
  induction h with
  | here _ =>
      intro before after hafter hall
      exact absurd (List.append_eq_nil_iff.mp hall.symm).2 hafter
  | stay hhere hidle hrest ih =>
      intro before after hafter hall
      rcases List.cons_eq_append_iff.mp hall with ⟨rfl, rfl⟩ | ⟨before, rfl, htail⟩
      · exact ⟨_, _, .stop hhere, .stay hhere hidle hrest⟩
      · obtain ⟨mid, k, hleads, hwalks⟩ := ih hafter htail
        exact ⟨mid, k, .stay hhere hidle hleads, hwalks⟩
  | up hhere hrest ih =>
      intro before after hafter hall
      rcases List.cons_eq_append_iff.mp hall with ⟨rfl, rfl⟩ | ⟨before, rfl, htail⟩
      · exact ⟨_, _, .stop hhere, .up hhere hrest⟩
      · obtain ⟨mid, k, hleads, hwalks⟩ := ih hafter htail
        exact ⟨mid, k, .up hhere hleads, hwalks⟩
  | free hhere hname hlength hnone =>
      intro before after hafter hall
      rcases List.cons_eq_append_iff.mp hall with ⟨rfl, rfl⟩ | ⟨before, rfl, htail⟩
      · exact ⟨_, _, .stop hhere, .free hhere hname hlength hnone⟩
      · exact absurd (List.append_eq_nil_iff.mp htail.symm).2 hafter
  | down hhere hname hlength hmaking he hnolink hrest ih =>
      intro before after hafter hall
      rcases List.cons_eq_append_iff.mp hall with ⟨rfl, rfl⟩ | ⟨before, rfl, htail⟩
      · exact ⟨_, _, .stop hhere, .down hhere hname hlength hmaking he hnolink hrest⟩
      · obtain ⟨mid, k, hleads, hwalks⟩ := ih hafter htail
        exact ⟨mid, k, .down hhere hname hlength hleads, hwalks⟩
  | link hhere hname hlength hitself hlink =>
      intro before after hafter hall
      rcases List.cons_eq_append_iff.mp hall with ⟨rfl, rfl⟩ | ⟨before, rfl, htail⟩
      · exact ⟨_, _, .stop hhere, .link hhere hname hlength hitself hlink⟩
      · exact absurd (List.append_eq_nil_iff.mp htail.symm).2 hafter
  | follow hhere hname hlength hmaking hitself hlink hrest ih =>
      intro before after hafter hall
      rcases List.cons_eq_append_iff.mp hall with ⟨rfl, rfl⟩ | ⟨before, rfl, htail⟩
      · exact ⟨_, _, .stop hhere, .follow hhere hname hlength hmaking hitself hlink hrest⟩
      · obtain ⟨mid, k, hleads, hwalks⟩ := ih hafter (by rw [htail, List.append_assoc])
        exact ⟨mid, k, .follow hhere hname hlength hlink hleads, hwalks⟩

/-- A walk to a directory goes on with one more name, whatever the look-up is for. -/
theorem Leads.walks_name (hname : IsName name) (h : Leads view n here steps dir m)
    (hlast : Walks view purpose m dir [name] found) :
    Walks view purpose n here (steps ++ [name]) found := by
  have hslash : ∀ rest : List String, rest ++ [name] ≠ [""] := by
    intro rest hrest
    have hlast := congrArg List.getLast? hrest
    rw [List.getLast?_concat] at hlast
    exact hname.ne_empty (Option.some.inj hlast)
  induction h with
  | stop _ => exact hlast
  | stay hhere hidle _ ih => exact .stay hhere hidle (ih hlast)
  | up hhere _ ih => exact .up hhere (ih hlast)
  | down hhere hname hlength hrest ih =>
      exact .down hhere hname hlength (fun h => hslash _ h.2) hrest.start (by simp) (ih hlast)
  | follow hhere hname hlength hlink _ ih =>
      refine .follow hhere hname hlength (fun h => hslash _ h.2) (by simp) hlink ?_
      rw [List.append_eq, ← List.append_assoc]
      exact ih hlast

/-! ## Last steps -/

theorem Walks.nil (h : Walks view purpose n here [] found) :
    ∃ e, view here = some e ∧ found = .entry here e := by
  cases h with
  | here he => exact ⟨_, he, rfl⟩

/-- A name leads to the entry of that name, unless that is a link to be followed. -/
theorem Walks.last_name (hname : IsName name) (h : Walks view purpose n dir [name] found) :
    name.utf8.length ≤ 255 ∧
      ((view (dir ++ [name]) = none ∧ found = .free (dir ++ [name])) ∨
        (∃ e, view (dir ++ [name]) = some e ∧ found = .entry (dir ++ [name]) e) ∨
        purpose ≠ .itself ∧ ∃ target, view (dir ++ [name]) = some (.link target)) := by
  cases h with
  | stay _ hidle _ => exact absurd hidle hname.not_idle
  | up _ _ => exact absurd rfl hname.ne_dots
  | free _ _ hlength hnone => exact ⟨hlength, .inl ⟨hnone, rfl⟩⟩
  | down _ _ hlength _ he _ hrest =>
      obtain ⟨e, he, rfl⟩ := hrest.nil
      exact ⟨hlength, .inr (.inl ⟨e, he, rfl⟩)⟩
  | link _ _ hlength _ hlink => exact ⟨hlength, .inr (.inl ⟨_, hlink, rfl⟩)⟩
  | follow _ _ hlength _ hitself hlink _ =>
      exact ⟨hlength, .inr (.inr ⟨fun h => hitself ⟨rfl, h⟩, _, hlink⟩)⟩

/-- Before a slash at the end of a path stands a directory. -/
theorem Walks.last_empty (hname : name = "") (h : Walks view purpose n dir [name] found) :
    found = .entry dir .directory := by
  cases h with
  | stay hdir _ hrest =>
      obtain ⟨e, he, rfl⟩ := hrest.nil
      rw [Option.some.inj (he.symm.trans hdir)]
  | up _ _ => exact absurd hname (by decide)
  | free _ h _ _ => exact absurd hname h.ne_empty
  | down _ h _ _ _ _ _ => exact absurd hname h.ne_empty
  | link _ h _ _ _ => exact absurd hname h.ne_empty
  | follow _ h _ _ _ _ _ => exact absurd hname h.ne_empty

/-- What a link is not followed to is free only under a name. -/
theorem Walks.isName_of_free {loc : Location} (h : Walks view .itself n dir [name] (.free loc)) :
    IsName name := by
  cases h with
  | stay _ _ hrest =>
      obtain ⟨e, -, hfound⟩ := hrest.nil
      contradiction
  | up _ hrest =>
      obtain ⟨e, -, hfound⟩ := hrest.nil
      contradiction
  | free _ hname _ _ => exact hname
  | down _ hname _ _ _ _ _ => exact hname
  | follow _ hname _ _ _ _ _ => exact hname

/-- What a look-up finds is there, and what it finds free is not. -/
theorem Walks.found_get (h : Walks view purpose n here steps found) :
    (∀ l, found = .free l → view l = none) ∧ ∀ l e, found = .entry l e → view l = some e := by
  induction h with
  | here he =>
      refine ⟨fun l h => by contradiction, fun l e h => ?_⟩
      obtain ⟨rfl, rfl⟩ := Found.entry.inj h
      exact he
  | stay _ _ _ ih => exact ih
  | up _ _ ih => exact ih
  | free _ _ _ hnone =>
      refine ⟨fun l h => ?_, fun l e h => by contradiction⟩
      obtain rfl := Found.free.inj h
      exact hnone
  | down _ _ _ _ _ _ _ ih => exact ih
  | link _ _ _ _ hlink =>
      refine ⟨fun l h => by contradiction, fun l e h => ?_⟩
      obtain ⟨rfl, rfl⟩ := Found.entry.inj h
      exact hlink
  | follow _ _ _ _ _ _ _ ih => exact ih

/-! ## Two views -/

/-- **Only directories and links matter** to a walk that ends in a directory. -/
theorem Leads.mono (hview : ∀ l e, view l = some e → Passable e → view' l = some e)
    (h : Leads view n here steps dir m) : Leads view' n here steps dir m := by
  induction h with
  | stop h => exact .stop (hview _ _ h .directory)
  | stay hhere hidle _ ih => exact .stay (hview _ _ hhere .directory) hidle ih
  | up hhere _ ih => exact .up (hview _ _ hhere .directory) ih
  | down hhere hname hlength _ ih => exact .down (hview _ _ hhere .directory) hname hlength ih
  | follow hhere hname hlength hlink _ ih =>
      exact .follow (hview _ _ hhere .directory) hname hlength (hview _ _ hlink (.link _)) ih

/-- The view of what both show. -/
def View.meet (view view' : View) : View :=
  fun l => (view' l).bind fun _ => view l

/-- Where both views show something, they show the same. -/
def View.Agree (view view' : View) : Prop :=
  ∀ l e e', view l = some e → view' l = some e' → e = e'

theorem View.meet_eq {l : Location} {e : Entry} (h : view l = some e) (h' : view' l = some e) :
    view.meet view' l = some e := by
  rw [View.meet, h', Option.bind_some, h]

/-- **Views that agree lead to the same directory**, and so does what they both show. -/
theorem Leads.meet {m' : Nat} (hagree : view.Agree view') (h : Leads view n here steps dir m)
    (h' : Leads view' n here steps dir' m') :
    dir = dir' ∧ Leads (view.meet view') n here steps dir m := by
  have hdots : ¬ IsIdle ".." := fun h => h.elim (by decide) (by decide)
  induction h with
  | stop hhere =>
      cases h' with
      | stop hhere' => exact ⟨rfl, .stop (View.meet_eq hhere hhere')⟩
  | stay hhere hidle _ ih =>
      cases h' with
      | stay hhere' _ h' =>
          obtain ⟨hdir, hmeet⟩ := ih h'
          exact ⟨hdir, .stay (View.meet_eq hhere hhere') hidle hmeet⟩
      | up _ _ => exact absurd hidle hdots
      | down _ hname _ _ => exact absurd hidle hname.not_idle
      | follow _ hname _ _ _ => exact absurd hidle hname.not_idle
  | up hhere _ ih =>
      cases h' with
      | stay _ hidle _ => exact absurd hidle hdots
      | up hhere' h' =>
          obtain ⟨hdir, hmeet⟩ := ih h'
          exact ⟨hdir, .up (View.meet_eq hhere hhere') hmeet⟩
      | down _ hname _ _ => exact absurd rfl hname.ne_dots
      | follow _ hname _ _ _ => exact absurd rfl hname.ne_dots
  | down hhere hname hlength hrest ih =>
      cases h' with
      | stay _ hidle _ => exact absurd hidle hname.not_idle
      | up _ _ => exact absurd rfl hname.ne_dots
      | down hhere' _ _ h' =>
          obtain ⟨hdir, hmeet⟩ := ih h'
          exact ⟨hdir, .down (View.meet_eq hhere hhere') hname hlength hmeet⟩
      | follow _ _ _ hlink _ =>
          have hsame := hagree _ _ _ hrest.start hlink
          contradiction
  | follow hhere hname hlength hlink _ ih =>
      cases h' with
      | stay _ hidle _ => exact absurd hidle hname.not_idle
      | up _ _ => exact absurd rfl hname.ne_dots
      | down _ _ _ hrest =>
          have hsame := hagree _ _ _ hlink hrest.start
          contradiction
      | follow hhere' _ _ hlink' h' =>
          obtain rfl := Entry.link.inj (hagree _ _ _ hlink hlink')
          obtain ⟨hdir, hmeet⟩ := ih h'
          exact ⟨hdir, .follow (View.meet_eq hhere hhere') hname hlength
            (View.meet_eq hlink hlink') hmeet⟩

/-- What a walk to a directory went through under its last name. -/
theorem Leads.passes (hname : IsName name) (h : Leads view n here (before ++ [name]) dir m) :
    ∃ mid k e, Leads view n here before mid k ∧ view (mid ++ [name]) = some e ∧ Passable e := by
  obtain ⟨mid, k, hbefore, hlast⟩ := h.split rfl
  cases hlast with
  | stay _ hidle _ => exact absurd hidle hname.not_idle
  | up _ _ => exact absurd rfl hname.ne_dots
  | down _ _ _ hrest => exact ⟨mid, k, _, hbefore, hrest.start, .directory⟩
  | follow _ _ _ hlink _ => exact ⟨mid, _, _, hbefore, hlink, .link _⟩

/-! ## Idle steps -/

/-- The steps that are not idle. -/
def moves (steps : List String) : List String :=
  steps.filter fun name => name ≠ "" && name ≠ "."

theorem moves_append (a b : List String) : moves (a ++ b) = moves a ++ moves b :=
  List.filter_append ..

theorem moves_cons_of_idle (h : IsIdle name) (rest : List String) :
    moves (name :: rest) = moves rest := by
  rcases h with rfl | rfl
  · rfl
  · rfl

theorem moves_cons_of_not_idle (h : ¬ IsIdle name) (rest : List String) :
    moves (name :: rest) = name :: moves rest := by
  rw [IsIdle, not_or] at h
  exact List.filter_cons_of_pos (by simp [h.1, h.2])

theorem moves_concat (h : IsName name) (init : List String) :
    moves (init ++ [name]) = moves init ++ [name] := by
  rw [moves_append, moves_cons_of_not_idle h.not_idle]
  rfl

theorem Leads.stay_iff (hidle : IsIdle name) :
    Leads view n here (name :: steps) dir m ↔ Leads view n here steps dir m := by
  refine ⟨fun h => ?_, fun h => .stay h.start hidle h⟩
  cases h with
  | stay _ _ h => exact h
  | up _ _ => exact absurd hidle (fun h => h.elim (by decide) (by decide))
  | down _ hname _ _ => exact absurd hidle hname.not_idle
  | follow _ hname _ _ _ => exact absurd hidle hname.not_idle

/-- Idle steps lead nowhere else. -/
theorem leads_moves_iff :
    Leads view n here (moves steps) dir m ↔ Leads view n here steps dir m := by
  suffices h : ∀ before : List String, Leads view n here (before ++ moves steps) dir m ↔
      Leads view n here (before ++ steps) dir m from h []
  induction steps with
  | nil => exact fun before => Iff.rfl
  | cons name rest ih =>
      intro before
      by_cases hidle : IsIdle name
      · rw [moves_cons_of_idle hidle, ih before]
        constructor
        · intro h
          obtain ⟨mid, k, hbefore, hrest⟩ := h.split rfl
          exact hbefore.append ((Leads.stay_iff hidle).mpr hrest)
        · intro h
          obtain ⟨mid, k, hbefore, hrest⟩ := h.split rfl
          exact hbefore.append ((Leads.stay_iff hidle).mp hrest)
      · have hrest := ih (before ++ [name])
        rw [List.append_assoc, List.append_assoc] at hrest
        rw [moves_cons_of_not_idle hidle]
        exact hrest

end FileSystem

end Reserved
