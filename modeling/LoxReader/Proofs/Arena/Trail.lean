/-
  `Proofs.Arena.Trail`: nodes along one kind of link.

  A trail starts where a link leads to, and goes on from each of its nodes to where that
  node leads; it ends where nothing comes next.  No start has two trails (`Trail.unique`).
  A walk that counts its steps finds a trail with as many steps as the trail has nodes, and
  with fewer steps it finds nothing.
-/
import LoxReader.Arena.Walk

set_option autoImplicit false

namespace LoxReader.Arena

variable {α : Type} {t : Arena α} {step : NodeId → Except ArenaFault (Option NodeId)}
  {link : Option NodeId} {ids : List NodeId}

/-- The nodes from the one that a link leads to, each with the next one behind it, until
nothing comes next. -/
def Trail (step : NodeId → Except ArenaFault (Option NodeId)) :
    Option NodeId → List NodeId → Prop
  | link, [] => link = none
  | link, id :: rest => link = some id ∧ ∃ next, step id = .ok next ∧ Trail step next rest

namespace Trail

theorem head?_eq (h : Trail step link ids) : ids.head? = link := by
  cases ids with
  | nil => exact h.symm
  | cons id rest => exact h.1.symm

/-- There is one trail from where a link leads to. -/
theorem unique {ids' : List NodeId} (h : Trail step link ids) (h' : Trail step link ids') :
    ids = ids' := by
  induction ids generalizing link ids' with
  | nil =>
      cases ids' with
      | nil => rfl
      | cons id' rest' => cases h.symm.trans h'.1
  | cons id rest ih =>
      cases ids' with
      | nil => cases h.1.symm.trans h'
      | cons id' rest' =>
          obtain ⟨hid, next, hnext, hrest⟩ := h
          obtain ⟨hid', next', hnext', hrest'⟩ := h'
          obtain rfl := Option.some.inj (hid.symm.trans hid')
          obtain rfl := Except.ok.inj (hnext.symm.trans hnext')
          rw [ih hrest hrest']

/-- From a node of a trail the step leads to the one behind it, and nowhere from the last. -/
theorem step_eq (h : Trail step link ids) {i : Nat} {id : NodeId} (hid : ids[i]? = some id) :
    step id = .ok ids[i + 1]? := by
  induction ids generalizing link i with
  | nil => cases hid
  | cons first rest ih =>
      obtain ⟨-, next, hnext, hrest⟩ := h
      cases i with
      | zero =>
          obtain rfl := Option.some.inj hid
          rw [hnext, ← hrest.head?_eq, List.getElem?_cons_succ, List.head?_eq_getElem?]
      | succ i => exact ih hrest hid

/-! ## Walking along a trail -/

/-- All of a trail in depth-first order is found in as many steps as it has nodes. -/
theorem preorderFrom_eq (h : Trail t.nextPreorder link ids) (seen : List NodeId) (fuel : Nat) :
    t.preorderFrom seen fuel link =
      if ids.length ≤ fuel then .ok (seen.reverse ++ ids) else .error .endless := by
  induction ids generalizing link seen fuel with
  | nil =>
      obtain rfl : link = none := h
      rw [preorderFrom, List.length_nil, if_pos (Nat.zero_le fuel), List.append_nil]
  | cons id rest ih =>
      obtain ⟨rfl, next, hnext, hrest⟩ := h
      cases fuel with
      | zero => rfl
      | succ fuel =>
          simp only [preorderFrom, hnext, ih hrest, List.length_cons, Nat.add_le_add_iff_right,
            List.reverse_cons, List.append_assoc, List.singleton_append]

end Trail

/-- What the walk finds in depth-first order is a trail. -/
theorem exists_trail_of_preorderFrom {seen order : List NodeId} {fuel : Nat}
    (h : t.preorderFrom seen fuel link = .ok order) :
    ∃ ids, order = seen.reverse ++ ids ∧ Trail t.nextPreorder link ids := by
  induction fuel generalizing seen link with
  | zero =>
      cases link with
      | none => exact ⟨[], by rw [List.append_nil]; exact (Except.ok.inj h).symm, rfl⟩
      | some id => cases h
  | succ fuel ih =>
      cases link with
      | none => exact ⟨[], by rw [List.append_nil]; exact (Except.ok.inj h).symm, rfl⟩
      | some id =>
          rw [preorderFrom] at h
          split at h
          · cases h
          · rename_i next hnext
            obtain ⟨ids, hids, htrail⟩ := ih h
            refine ⟨id :: ids, ?_, rfl, next, hnext, htrail⟩
            rw [hids, List.reverse_cons, List.append_assoc, List.singleton_append]

end LoxReader.Arena
