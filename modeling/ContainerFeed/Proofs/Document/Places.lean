import ContainerFeed.Node.Address
import ContainerFeed.Proofs.Paths

/-!
# Places in a document

A place is what a list of steps leads to from the root. This file compares places: one can lie
above another, or the two part where they select different children. Both relations, and whether
a place can be written at all, depend only on the shapes of the containers on the way to it.
-/

namespace ContainerFeed.Node

/-! ## Children and shapes -/

/-- Two steps select the same child of a node: keys compare as text, list steps as numbers. -/
def SameChild (node : Node) (s t : String) : Prop :=
  match node with
  | .list _ => Text.readIndex? s = Text.readIndex? t
  | _ => s = t

/-- Two nodes hold children in the same way: both are maps, or leaves, or lists of one length. -/
def SameShape : Node → Node → Prop
  | .map _, .map _ => True
  | .list xs, .list ys => xs.length = ys.length
  | .leaf _, .leaf _ => True
  | _, _ => False

/-- A node has room for an entry: a map under any key, a list only where it has an item. -/
def Takes (node : Node) (step : String) : Prop :=
  match node with
  | .map _ => True
  | .list items => (indexWithin? items step).isSome
  | .leaf _ => False

/-- Every node has its own shape. -/
@[simp]
theorem SameShape.refl (node : Node) : node.SameShape node := by
  cases node <;> simp [SameShape]

/-- Having the same shape goes both ways. -/
theorem SameShape.symm {a b : Node} (h : a.SameShape b) : b.SameShape a := by
  cases a <;> cases b <;> simp_all [SameShape]

/-- Nodes of the shape of one node have the same shape. -/
theorem SameShape.trans {a b c : Node} (hab : a.SameShape b) (hbc : b.SameShape c) :
    a.SameShape c := by
  cases a <;> cases b <;> cases c <;> simp_all [SameShape]

/-- Of two nodes of one shape both are maps, or none. -/
theorem SameShape.isMap_eq {a b : Node} (h : a.SameShape b) : a.isMap = b.isMap := by
  cases a <;> cases b <;> simp_all [SameShape, isMap]

/-- Steps select the same child in nodes of one shape alike. -/
theorem SameShape.sameChild_iff {a b : Node} (h : a.SameShape b) (s t : String) :
    a.SameChild s t ↔ b.SameChild s t := by
  cases a <;> cases b <;> simp_all [SameShape, SameChild]

/-- Nodes of one shape have room for the same entries. -/
theorem SameShape.takes_iff {a b : Node} (h : a.SameShape b) (s : String) :
    a.Takes s ↔ b.Takes s := by
  cases a <;> cases b <;> simp_all [SameShape, Takes, indexWithin?]

/-- A step selects the child that it selects. -/
@[simp]
theorem SameChild.refl (node : Node) (s : String) : node.SameChild s s := by
  cases node <;> simp [SameChild]

/-- Selecting the same child goes both ways. -/
theorem SameChild.symm {node : Node} {s t : String} (h : node.SameChild s t) :
    node.SameChild t s := by
  cases node <;> simp_all [SameChild]

/-- Steps that select the same child find the same one. -/
theorem SameChild.child?_eq {node : Node} {s t : String} (h : node.SameChild s t) :
    node.child? s = node.child? t := by
  cases node <;> simp_all [SameChild, child?]

/-- A step selects an item when it is read as an index that the list has. -/
theorem indexWithin?_eq_some_iff {items : List Node} {step : String} {index : Nat} :
    indexWithin? items step = some index ↔
      Text.readIndex? step = some index ∧ index < items.length := by
  simp [indexWithin?, Option.filter_eq_some_iff]

/-- Where a node has a child, it has room for an entry. -/
theorem takes_of_child? {node child : Node} {step : String} (h : node.child? step = some child) :
    node.Takes step := by
  cases node with
  | map fields => trivial
  | leaf value => simp [child?] at h
  | list items =>
    obtain ⟨index, hindex, hitem⟩ := Option.bind_eq_some_iff.mp h
    have hlt := (List.getElem?_eq_some_iff.mp hitem).1
    simp [Takes, indexWithin?_eq_some_iff.mpr ⟨hindex, hlt⟩]

/-! ## Putting a child in its place -/

/-- A new child does not change the shape. -/
theorem sameShape_putChild (node : Node) (step : String) (child : Node) :
    node.SameShape (node.putChild step child) := by
  cases node with
  | map fields => trivial
  | leaf value => trivial
  | list items =>
    simp only [putChild]
    cases Text.readIndex? step <;> simp [SameShape]

/-- A new child is found where the old one was. -/
theorem child?_putChild_self {node old : Node} {step : String} (h : node.child? step = some old)
    (child : Node) : (node.putChild step child).child? step = some child := by
  cases node with
  | map fields => simp [putChild, child?]
  | leaf value => simp [child?] at h
  | list items =>
    obtain ⟨index, hindex, hitem⟩ := Option.bind_eq_some_iff.mp h
    have hlt := (List.getElem?_eq_some_iff.mp hitem).1
    simp [putChild, child?, hindex, hlt]

/-- A new child leaves the others as they are. -/
theorem child?_putChild_of_not_sameChild {node : Node} {s t : String}
    (h : ¬ node.SameChild s t) (child : Node) :
    (node.putChild s child).child? t = node.child? t := by
  cases node with
  | map fields =>
    have hne : t ≠ s := fun heq => h heq.symm
    simp [putChild, child?, Keyed.get?_insert_of_ne child fields hne]
  | leaf value => rfl
  | list items =>
    unfold putChild
    cases hs : Text.readIndex? s with
    | none => rfl
    | some i =>
      cases ht : Text.readIndex? t with
      | none => simp [child?, ht]
      | some j =>
        have hne : i ≠ j := by
          intro heq
          apply h
          simp [SameChild, hs, ht, heq]
        simp [child?, ht, hne]

/-! ## Places -/

/-- Steps lead to a place that can be written: every container on the way is there, and the last
one has room. -/
def Accepts (node : Node) : List String → Prop
  | [] => True
  | step :: rest => node.Takes step ∧
      (rest ≠ [] → ∃ child, node.child? step = some child ∧ child.Accepts rest)

/-- The first place lies above the second one: the steps to it are spent while steps to the
second are left. -/
def Above (node : Node) : List String → List String → Prop
  | [], lower => lower ≠ []
  | _ :: _, [] => False
  | s :: upper, t :: lower =>
      node.SameChild s t ∧ ∃ child, node.child? t = some child ∧ child.Above upper lower

/-- No place lies above itself. -/
theorem not_above_self (node : Node) (p : List String) : ¬ node.Above p p := by
  induction p generalizing node with
  | nil => simp [Above]
  | cons s p ih =>
    rintro ⟨_, child, _, habove⟩
    exact ih child habove

/-- Only the root lies above what one step leads to. -/
theorem eq_nil_of_above_singleton {node : Node} {q : List String} {step : String}
    (h : node.Above q [step]) : q = [] := by
  cases q with
  | nil => rfl
  | cons s q =>
    obtain ⟨_, child, _, hbelow⟩ := h
    cases q <;> simp [Above] at hbelow

/-- A step that is no index leads into maps only. -/
theorem exists_fields_of_child? {node child : Node} {step : String}
    (hstep : Text.readIndex? step = none) (h : node.child? step = some child) :
    ∃ fields, node = .map fields := by
  cases node with
  | map fields => exact ⟨fields, rfl⟩
  | list items => simp [child?, hstep] at h
  | leaf value => simp [child?] at h

/-- What lies below a place that one step leads to begins with this step, unless it is an
index. -/
theorem cons_of_singleton_above {node : Node} {step : String} {p : List String}
    (hstep : Text.readIndex? step = none) (h : node.Above [step] p) :
    ∃ rest, p = step :: rest ∧ rest ≠ [] := by
  cases p with
  | nil => exact h.elim
  | cons t p =>
    obtain ⟨hsame, child, hchild, hbelow⟩ := h
    cases node with
    | map fields =>
      obtain rfl : step = t := hsame
      exact ⟨p, rfl, hbelow⟩
    | list items =>
      have hnone : Text.readIndex? t = none := by rw [← hstep, hsame]
      simp [child?, hnone] at hchild
    | leaf value => simp [child?] at hchild

/-- Two places part: somewhere on the way they select different children. -/
def Apart (node : Node) : List String → List String → Prop
  | s :: p, t :: q =>
      node.SameChild s t → ∃ child, node.child? s = some child ∧ child.Apart p q
  | _, _ => False

/-- The containers on the way to a place have the same shapes in two documents. -/
def SameWay : List String → Node → Node → Prop
  | [], _, _ => True
  | step :: rest, a, b => a.SameShape b ∧
      (rest ≠ [] → ∃ c d, a.child? step = some c ∧ b.child? step = some d ∧ SameWay rest c d)

/-- Steps are followed one part after another. -/
theorem follow?_append (node : Node) (p q : List String) :
    node.follow? (p ++ q) = (node.follow? p).bind fun inner => inner.follow? q := by
  induction p generalizing node with
  | nil => rfl
  | cons s p ih =>
    simp only [List.cons_append, follow?]
    cases node.child? s with
    | none => rfl
    | some child => exact ih child

/-- Where there is a node, it can be overwritten. -/
theorem accepts_of_follow? {node inner : Node} {p : List String}
    (h : node.follow? p = some inner) : node.Accepts p := by
  induction p generalizing node with
  | nil => trivial
  | cons s p ih =>
    simp only [follow?] at h
    cases hchild : node.child? s with
    | none => simp [hchild] at h
    | some child =>
      simp only [hchild] at h
      exact ⟨takes_of_child? hchild, fun _ => ⟨child, hchild, ih h⟩⟩

/-- What leads to a place that can be written leads from each child on the way to such a place. -/
theorem Accepts.below {node child : Node} {step : String} {rest : List String}
    (h : node.Accepts (step :: rest)) (hchild : node.child? step = some child) :
    child.Accepts rest := by
  cases rest with
  | nil => trivial
  | cons next rest =>
    obtain ⟨other, hother, hbelow⟩ := h.2 (by simp)
    obtain rfl := Option.some.inj (hchild.symm.trans hother)
    exact hbelow

/-- The way to a place that can be written is there. -/
theorem Accepts.sameWay_refl {node : Node} {p : List String} (h : node.Accepts p) :
    SameWay p node node := by
  induction p generalizing node with
  | nil => trivial
  | cons s p ih =>
    refine ⟨SameShape.refl node, fun hp => ?_⟩
    obtain ⟨child, hchild, haccepts⟩ := h.2 hp
    exact ⟨child, child, hchild, hchild, ih haccepts⟩

/-- Ways that are the same in two documents are so both ways. -/
theorem SameWay.symm {p : List String} {a b : Node} (h : SameWay p a b) : SameWay p b a := by
  induction p generalizing a b with
  | nil => trivial
  | cons s p ih =>
    refine ⟨h.1.symm, fun hp => ?_⟩
    obtain ⟨c, d, hc, hd, hway⟩ := h.2 hp
    exact ⟨d, c, hd, hc, ih hway⟩

/-- Ways that are the same as in one document are the same. -/
theorem SameWay.trans {p : List String} {a b c : Node} (hab : SameWay p a b)
    (hbc : SameWay p b c) : SameWay p a c := by
  induction p generalizing a b c with
  | nil => trivial
  | cons s p ih =>
    refine ⟨hab.1.trans hbc.1, fun hp => ?_⟩
    obtain ⟨x, y, hx, hy, hxy⟩ := hab.2 hp
    obtain ⟨y', z, hy', hz, hyz⟩ := hbc.2 hp
    obtain rfl : y = y' := by simpa [hy] using hy'
    exact ⟨x, z, hx, hz, ih hxy hyz⟩

/-- Whether a place can be written depends only on the way to it. -/
theorem SameWay.accepts {p : List String} {a b : Node} (h : SameWay p a b) (ha : a.Accepts p) :
    b.Accepts p := by
  induction p generalizing a b with
  | nil => trivial
  | cons s p ih =>
    refine ⟨(h.1.takes_iff s).mp ha.1, fun hp => ?_⟩
    obtain ⟨c, d, hc, hd, hway⟩ := h.2 hp
    obtain ⟨c', hc', haccepts⟩ := ha.2 hp
    obtain rfl : c = c' := by simpa [hc] using hc'
    exact ⟨d, hd, ih hway haccepts⟩

/-- Which places lie above a place depends only on the way to it. -/
theorem SameWay.above {p q : List String} {a b : Node} (h : SameWay p a b) (ha : a.Above q p) :
    b.Above q p := by
  induction p generalizing q a b with
  | nil => cases q <;> simp_all [Above]
  | cons t p ih =>
    cases q with
    | nil => simp [Above]
    | cons s q =>
      obtain ⟨hsame, child, hchild, habove⟩ := ha
      have hp : p ≠ [] := by
        rintro rfl
        cases q <;> simp [Above] at habove
      obtain ⟨c, d, hc, hd, hway⟩ := h.2 hp
      obtain rfl : c = child := by simpa [hc] using hchild
      exact ⟨(h.1.sameChild_iff s t).mp hsame, d, hd, ih hway habove⟩

/-- Which places part from a place depends only on the way to it. -/
theorem SameWay.apart {p q : List String} {a b : Node} (h : SameWay p a b) (ha : a.Apart p q) :
    b.Apart p q := by
  induction p generalizing q a b with
  | nil => simp [Apart] at ha
  | cons s p ih =>
    cases q with
    | nil => simp [Apart] at ha
    | cons t q =>
      intro hsame
      obtain ⟨child, hchild, hapart⟩ := ha ((h.1.sameChild_iff s t).mpr hsame)
      have hp : p ≠ [] := by
        rintro rfl
        simp [Apart] at hapart
      obtain ⟨c, d, hc, hd, hway⟩ := h.2 hp
      obtain rfl : c = child := by simpa [hc] using hchild
      exact ⟨d, hd, ih hway hapart⟩

/-- The container of a place has the same shape in documents with the same way to it. -/
theorem SameWay.parent {p : List String} {a b parent : Node} (h : SameWay p a b) (hp : p ≠ [])
    (hparent : a.follow? p.dropLast = some parent) :
    ∃ other, b.follow? p.dropLast = some other ∧ parent.SameShape other := by
  induction p generalizing a b with
  | nil => exact absurd rfl hp
  | cons s p ih =>
    cases p with
    | nil =>
      obtain rfl : a = parent := by simpa [follow?] using hparent
      exact ⟨b, rfl, h.1⟩
    | cons t p =>
      obtain ⟨c, d, hc, hd, hway⟩ := h.2 (by simp)
      simp only [List.dropLast_cons_cons, follow?, hc, hd] at hparent ⊢
      exact ih hway (by simp) hparent

/-- Places that part do so both ways. -/
theorem Apart.symm {node : Node} {p q : List String} (h : node.Apart p q) : node.Apart q p := by
  induction p generalizing q node with
  | nil => simp [Apart] at h
  | cons s p ih =>
    cases q with
    | nil => simp [Apart] at h
    | cons t q =>
      intro hsame
      obtain ⟨child, hchild, hapart⟩ := h hsame.symm
      exact ⟨child, by rw [hsame.child?_eq, hchild], ih hapart⟩

/-- No place parts from itself. -/
theorem not_apart_self (node : Node) (p : List String) : ¬ node.Apart p p := by
  induction p generalizing node with
  | nil => simp [Apart]
  | cons s p ih =>
    intro hapart
    obtain ⟨child, _, hbelow⟩ := hapart (SameChild.refl node s)
    exact ih child hbelow

/-- Of two places that part, neither lies above the other. -/
theorem Apart.not_above {node : Node} {p q : List String} (h : node.Apart p q) :
    ¬ node.Above p q := by
  induction p generalizing q node with
  | nil => simp [Apart] at h
  | cons s p ih =>
    cases q with
    | nil => simp [Above]
    | cons t q =>
      rintro ⟨hsame, child, hchild, habove⟩
      obtain ⟨other, hother, hapart⟩ := h hsame
      obtain rfl : other = child := by
        rw [hsame.child?_eq, hchild] at hother
        exact (Option.some.inj hother).symm
      exact ih hapart habove

/-- Of two places with nodes, the second lies above the first or below its node, or they part. -/
theorem apart_or_below {node a b : Node} {p q : List String} (hp : node.follow? p = some a)
    (hq : node.follow? q = some b) :
    node.Apart p q ∨ node.Above q p ∨ ∃ rest, a.follow? rest = some b := by
  induction p generalizing q node with
  | nil =>
    obtain rfl : node = a := by simpa [follow?] using hp
    exact .inr (.inr ⟨q, hq⟩)
  | cons s p ih =>
    cases q with
    | nil => exact .inr (.inl (by simp [Above]))
    | cons t q =>
      by_cases hsame : node.SameChild s t
      · obtain ⟨child, hchild⟩ : ∃ child, node.child? s = some child := by
          cases hchild : node.child? s with
          | some child => exact ⟨child, rfl⟩
          | none => simp [follow?, hchild] at hp
        simp only [follow?, ← hsame.child?_eq, hchild] at hp hq
        rcases ih hp hq with hapart | habove | hbelow
        · exact .inl fun _ => ⟨child, hchild, hapart⟩
        · exact .inr (.inl ⟨hsame.symm, child, hchild, habove⟩)
        · exact .inr (.inr hbelow)
      · exact .inl fun h => absurd h hsame

/-- Nothing lies below a leaf. -/
theorem Above.follow?_ne_leaf {node : Node} {p q : List String} {value : Scalar}
    (h : node.Above q p) (haccepts : node.Accepts p) :
    node.follow? q ≠ some (.leaf value) := by
  induction q generalizing p node with
  | nil =>
    intro hleaf
    obtain rfl : node = .leaf value := by simpa [follow?] using hleaf
    cases p with
    | nil => simp [Above] at h
    | cons t p => exact haccepts.1
  | cons s q ih =>
    cases p with
    | nil => simp [Above] at h
    | cons t p =>
      obtain ⟨hsame, child, hchild, habove⟩ := h
      have hp : p ≠ [] := by
        rintro rfl
        cases q <;> simp [Above] at habove
      obtain ⟨other, hother, hinner⟩ := haccepts.2 hp
      obtain rfl : other = child := by simpa [hother] using hchild
      simp only [follow?, hsame.child?_eq, hchild]
      exact ih habove hinner

end ContainerFeed.Node
