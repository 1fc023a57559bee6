import Reserved.Pipeline

/-!
# Steps of a run

A run goes on after a step that succeeds, with the journal that the step leaves.
-/

namespace Reserved

namespace KeywordSpec

/-- A file is loaded by reading its bytes and then the entries in them. -/
theorem run_load (fs : FileSystem) (path : String) (j : Journal) :
    ((load fs path).run j).1 = match readFile fs path with
      | .error e => .error e
      | .ok bytes => ofBytes path bytes := by
  unfold load
  cases readFile fs path with
  | error e => rfl
  | ok bytes =>
      show ((do let spec ← ofBytes path bytes; _ : Work SpecError KeywordSpec).run j).1
        = ofBytes path bytes
      cases ofBytes path bytes with
      | error e => rfl
      | ok spec => rfl

end KeywordSpec

namespace Pipeline

theorem run_orFail_ok {ε α β : Type} (reason : ε → PipelineError) (a : α)
    (f : α → Work PipelineError β) (j : Journal) :
    (orFail reason (.ok a) >>= f).run j = (f a).run j := rfl

theorem run_modify {β : Type} (g : Journal → Journal) (f : PUnit → Work PipelineError β)
    (j : Journal) : ((modify g : Work PipelineError PUnit) >>= f).run j = (f ⟨⟩).run (g j) := rfl

/-- Logging matches starts nothing. -/
theorem invocations_logMatches (raw : String) (rules : List EditRule) (j : Journal) :
    (logMatches raw rules j).invocations = j.invocations := by
  induction rules generalizing j with
  | nil => rfl
  | cons r rest ih =>
      rw [logMatches]
      split
      · rw [ih]
        rfl
      · rfl

end Pipeline

end Reserved
