/-!
# Ordered tables

A finite map from names that remembers the order in which its names came. Putting a name again
changes what it stands for and keeps its place. Names of a module, fields of a class and files of a
directory are tables.

Headlines: `get?_put_self`, `get?_put_of_ne`, `names_put_of_mem`.
-/

namespace ShapeGrammar

/-- Names with what they stand for, in order of arrival. -/
abbrev Table (α : Type) := List (String × α)

namespace Table

variable {α : Type}

/-- What `name` stands for. -/
def get? (t : Table α) (name : String) : Option α :=
  match t with
  | [] => none
  | (k, v) :: rest => if k = name then some v else get? rest name

/-- Lets `name` stand for `v`: in its old place, or at the end if it is new. -/
def put (t : Table α) (name : String) (v : α) : Table α :=
  match t with
  | [] => [(name, v)]
  | (k, w) :: rest => if k = name then (k, v) :: rest else (k, w) :: put rest name v

/-- The table without `name`. -/
def erase (t : Table α) (name : String) : Table α :=
  t.filter fun e => e.1 != name

/-- The names in order. -/
def names (t : Table α) : List String :=
  t.map (·.1)

/-- Whether `name` stands for something. -/
def has (t : Table α) (name : String) : Bool :=
  (get? t name).isSome

/-- Puts every entry of `u`, in order. -/
def putAll (t u : Table α) : Table α :=
  u.foldl (fun t e => put t e.1 e.2) t

@[simp]
theorem get?_put_self (t : Table α) (name : String) (v : α) :
    get? (put t name v) name = some v := by
  induction t with
  | nil => simp [put, get?]
  | cons e t ih =>
    obtain ⟨k, w⟩ := e
    by_cases h : k = name
    · simp [put, get?, h]
    · simp [put, get?, h, ih]

theorem get?_put_of_ne (t : Table α) {name other : String} (v : α) (h : name ≠ other) :
    get? (put t name v) other = get? t other := by
  induction t with
  | nil => simp [put, get?, h]
  | cons e t ih =>
    obtain ⟨k, w⟩ := e
    by_cases hk : k = name
    · subst hk; simp [put, get?, h]
    · simp only [put, hk, if_false, get?, ih]

theorem names_put_of_mem (t : Table α) {name : String} (v : α) (h : name ∈ names t) :
    names (put t name v) = names t := by
  induction t with
  | nil => simp [names] at h
  | cons e t ih =>
    obtain ⟨k, w⟩ := e
    by_cases hk : k = name
    · simp [put, names, hk]
    · have : name ∈ names t := by
        simp only [names, List.map_cons, List.mem_cons] at h
        exact h.resolve_left fun e => hk e.symm
      simp only [put, hk, if_false, names, List.map_cons]
      exact congrArg _ (ih this)

end Table

end ShapeGrammar
