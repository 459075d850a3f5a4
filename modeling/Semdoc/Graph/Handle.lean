/-! # Node handles

A node is referred to by the place it occupies and the generation of that place.  When a place is
used again after its node was dropped it gets a new generation, so an old handle never refers to
the new node.  Places are counted in 32 bits, and a handle of the last of them stands for no node.
-/

namespace Semdoc

/-- Refers to a node. -/
structure NodeHandle where
  place : Nat
  generation : Nat
  deriving DecidableEq, Hashable

namespace NodeHandle

/-- The place that stands for no node. -/
def lastPlace : Nat := 4294967295

/-- The handle that refers to no node.  It comes after the handles of all nodes. -/
def null : NodeHandle := ⟨lastPlace, 1⟩

instance : Inhabited NodeHandle := ⟨null⟩

/-- Whether a handle stands for no node. -/
def isNull (h : NodeHandle) : Bool := h.place == lastPlace

/-- The handle that a number packs: the place below, the generation above.  Handles have odd
generations, so that the lowest bit of the generation is set. -/
def ofNumber (n : Nat) : NodeHandle :=
  ⟨n % (lastPlace + 1), n / (lastPlace + 1) ||| 1⟩

/-- Order by place, then by generation. -/
def compareHandles (a b : NodeHandle) : Ordering :=
  (compare a.place b.place).then (compare a.generation b.generation)

/-- The written form of a handle. -/
def text (h : NodeHandle) : String :=
  if h.isNull then "NodeId(null)" else s!"NodeId({h.place}v{h.generation})"

theorem compareHandles_eq_iff (a b : NodeHandle) : compareHandles a b = .eq ↔ a = b := by
  cases a; cases b
  simp [compareHandles, Ordering.then_eq_eq]

end NodeHandle

end Semdoc
