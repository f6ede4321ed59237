import KexecLoader.Library.CString

/-!
# The components of a path

A path is read from the root: what stands between its slashes, less the empty
pieces that doubled slashes leave.
-/
namespace KexecLoader

def dot : Str := bytes "."

def dotdot : Str := bytes ".."

/-- The components of a path; empty ones do not count. -/
def pathComponents (path : Str) : List Str := (path.splitOn slash).filter (· ≠ [])

@[simp] theorem pathComponents_nil : pathComponents [] = [] := rfl

theorem pathComponents_slash (xs ys : Str) :
    pathComponents (xs ++ slash :: ys) = pathComponents xs ++ pathComponents ys := by
  simp only [pathComponents, List.splitOn_append_cons_self, List.filter_append]

theorem pathComponents_plain (node : Str) (plain : slash ∉ node) :
    pathComponents node = if node = [] then [] else [node] := by
  unfold pathComponents
  rw [List.splitOn_eq_singleton plain]
  by_cases empty : node = [] <;> simp [empty]

theorem pathComponents_slashes (slashes rest : Str) (all : ∀ c ∈ slashes, c = slash) :
    pathComponents (slashes ++ rest) = pathComponents rest := by
  induction slashes with
  | nil => rfl
  | cons c slashes ih =>
    rw [all c (by simp), List.cons_append]
    exact (pathComponents_slash [] _).trans (ih fun d hd => all d (by simp [hd]))

end KexecLoader
