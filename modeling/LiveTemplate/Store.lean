/-!
# Rows by number

A store holds one row for every number.  Numbers that were never written have
the default row, so that reading and writing need no side condition: a row
reads as it was last written, and writing it changes no other.
-/

namespace LiveTemplate

/-- The rows that were written and those before them. -/
structure Store (α : Type) where
  rows : Array α

namespace Store

variable {α : Type}

def empty : Store α := ⟨#[]⟩

instance : Inhabited (Store α) := ⟨empty⟩

/-- The first number that no row was written under. -/
def size (store : Store α) : Nat :=
  store.rows.size

def values (store : Store α) : List α :=
  store.rows.toList

/-- Write a row under the first free number. -/
def alloc (store : Store α) (row : α) : Nat × Store α :=
  (store.size, ⟨store.rows.push row⟩)

variable [Inhabited α]

def get (store : Store α) (number : Nat) : α :=
  store.rows[number]?.getD default

/-- Write a row; numbers that are passed over get the default row. -/
def put (store : Store α) (number : Nat) (row : α) : Store α :=
  if number < store.size then ⟨store.rows.setIfInBounds number row⟩
  else
    let skipped := Array.replicate (number - store.size) default
    ⟨(store.rows ++ skipped).push row⟩

def modify (store : Store α) (number : Nat) (change : α → α) : Store α :=
  store.put number (change (store.get number))

@[simp] theorem get_put_self (store : Store α) (number : Nat) (row : α) :
    (store.put number row).get number = row := by
  by_cases within : number < store.rows.size
  · simp [get, put, size, within]
  · simp [get, put, size, within, Array.getElem?_append, Array.getElem_push]

theorem get_put_of_ne (store : Store α) {number other : Nat} (row : α)
    (differs : other ≠ number) :
    (store.put number row).get other = store.get other := by
  by_cases within : number < store.rows.size
  · simp [get, put, size, within, Ne.symm differs]
  · by_cases old : other < store.rows.size
    · simp [get, put, size, within, Array.getElem?_append, old]
    · have apart : other - store.rows.size ≠ number - store.rows.size := by
        omega
      by_cases skipped : other - store.rows.size < number - store.rows.size
      · simp [get, put, size, within, Array.getElem?_append, old,
          Array.getElem?_push, apart, skipped]
      · simp [get, put, size, within, Array.getElem?_append, old,
          Array.getElem?_push, apart, skipped]

theorem size_le_put (store : Store α) (number : Nat) (row : α) :
    store.size ≤ (store.put number row).size := by
  unfold put
  split
  · simp [size]
  · simp [size]

@[simp] theorem get_modify_self (store : Store α) (number : Nat)
    (change : α → α) :
    (store.modify number change).get number = change (store.get number) := by
  simp [modify]

theorem get_modify_of_ne (store : Store α) {number other : Nat}
    (change : α → α) (differs : other ≠ number) :
    (store.modify number change).get other = store.get other :=
  get_put_of_ne store _ differs

/-- There is no row yet at the number that comes next. -/
theorem get_size (store : Store α) : store.get store.size = default := by
  simp [get, size]

@[simp] theorem get_alloc_self (store : Store α) (row : α) :
    (store.alloc row).2.get (store.alloc row).1 = row := by
  simp [get, alloc, size]

theorem get_alloc_of_ne (store : Store α) {number : Nat} (row : α)
    (differs : number ≠ store.size) :
    (store.alloc row).2.get number = store.get number := by
  simp only [size] at differs
  simp [get, alloc, Array.getElem?_push, differs]

end Store

end LiveTemplate
