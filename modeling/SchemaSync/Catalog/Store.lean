import SchemaSync.Schema.Handle

/-!
# Stores

The values behind handles of one kind. Adding a value gives a fresh handle and changes no other, and an
update changes the value behind one handle. Nothing is ever taken out: a part that no snapshot holds any
more keeps its value for whoever still has its handle.
-/

namespace SchemaSync

/-- The values behind the handles of one kind. -/
structure Store (kind : Kind) (α : Type) where
  cells : Array α

namespace Store

variable {kind : Kind} {α : Type}

def empty : Store kind α := ⟨#[]⟩

def size (s : Store kind α) : Nat := s.cells.size

def next (s : Store kind α) : Handle kind := ⟨s.cells.size⟩

def get [Inhabited α] (s : Store kind α) (h : Handle kind) : α := s.cells[h.number]?.getD default

def add (s : Store kind α) (a : α) : Store kind α := ⟨s.cells.push a⟩

def update (s : Store kind α) (h : Handle kind) (f : α → α) : Store kind α :=
  ⟨s.cells.modify h.number f⟩

@[simp] theorem size_add (s : Store kind α) (a : α) : (s.add a).size = s.size + 1 := by
  simp [size, add]

@[simp] theorem size_update (s : Store kind α) (h : Handle kind) (f : α → α) :
    (s.update h f).size = s.size := by
  simp [size, update]

variable [Inhabited α]

theorem get_add_next (s : Store kind α) (a : α) : (s.add a).get s.next = a := by
  simp [get, add, next]

theorem get_add_of_lt {s : Store kind α} {h : Handle kind} (a : α) (lt : h.number < s.size) :
    (s.add a).get h = s.get h := by
  have : h.number < s.cells.size := lt
  simp [get, add, Array.getElem?_push, Nat.ne_of_lt this]

theorem get_update_self {s : Store kind α} {h : Handle kind} (f : α → α) (lt : h.number < s.size) :
    (s.update h f).get h = f (s.get h) := by
  have : h.number < s.cells.size := lt
  simp [get, update, Array.getElem_modify, this]

theorem get_update_of_ne {s : Store kind α} {h j : Handle kind} (f : α → α) (ne : j ≠ h) :
    (s.update h f).get j = s.get j := by
  have : h.number ≠ j.number := fun e => ne (by cases h; cases j; cases e; rfl)
  simp [get, update, Array.getElem?_modify, this]

end Store
end SchemaSync
