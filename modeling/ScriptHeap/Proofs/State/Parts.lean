import ScriptHeap.Proofs.State.Restore
import ScriptHeap.Proofs.Transfer.Values
import ScriptHeap.Proofs.Value.Summary

/-!
# Parts that a return brings back

A value that a return takes from the caller is left with its fields and loses the parts that were
split off at the callee's nodes (`Value.stripped_removeParts`). Only the outermost splitting is
looked at: a part that stays is left whole, with everything that was split off inside it. So nothing
that was split off at the callee's nodes comes back exactly if nothing inside the parts that stay
was (`HeapObject.restore_freeOf_iff`).
-/

namespace ScriptHeap

namespace Value

variable {u v part : Value} {nodes : FinSet Nat} {token : Token}

/-! ### Inner values -/

theorem Inner.of_part (found : v.part? token = some part) (inner : part.Inner u) : v.Inner u := by
  induction inner with
  | self => exact .part .self found
  | part _ deeper ih => exact .part ih deeper

/-- What is inside a value is the value itself or inside one of its parts. -/
theorem inner_iff :
    v.Inner u ↔ u = v ∨ ∃ token part, v.part? token = some part ∧ part.Inner u := by
  constructor
  · intro inner
    induction inner with
    | self => exact .inl rfl
    | part _ found ih =>
        refine .inr ?_
        rcases ih with rfl | ⟨token, part, first, inner⟩
        · exact ⟨_, _, found, .self⟩
        · exact ⟨token, part, first, .part inner found⟩
  · rintro (rfl | ⟨token, part, found, inner⟩)
    · exact .self
    · exact .of_part found inner

/-! ### Nodes at every depth -/

/-- No part, at any depth of the value, was split off at one of the nodes. -/
def FreeOf (v : Value) (nodes : FinSet Nat) : Prop :=
  ∀ u, v.Inner u → ∀ token ∈ u.tokens, nodes.contains token.node = false

/-- Of the parts that were split off at other nodes, none has anything inside that was split off at
    one of the nodes. -/
def KeepsFreeOf (v : Value) (nodes : FinSet Nat) : Prop :=
  ∀ token part, v.part? token = some part → nodes.contains token.node = false → part.FreeOf nodes

/-- The second value is the first without the parts of its outermost splitting that were split off
    at one of the nodes. -/
structure Stripped (v : Value) (nodes : FinSet Nat) (w : Value) : Prop where
  flags : w.flags = v.flags
  string : w.string = v.string
  labels : w.labels = v.labels
  parts : ∀ token, w.part? token =
    if nodes.contains token.node then Option.none else v.part? token

/-- A value is free of some nodes if its outermost splitting is and all of its parts are. -/
theorem freeOf_iff : v.FreeOf nodes ↔
    (∀ token ∈ v.tokens, nodes.contains token.node = false) ∧
      ∀ token part, v.part? token = some part → part.FreeOf nodes := by
  constructor
  · intro free
    refine ⟨free v .self, fun token part found u inner => ?_⟩
    exact free u (.of_part found inner)
  · rintro ⟨outermost, parts⟩ u inner
    rcases inner_iff.mp inner with rfl | ⟨token, part, found, inner⟩
    · exact outermost
    · exact parts token part found u inner

theorem freeOf_of_whole (whole : v.parts = []) : v.FreeOf nodes := by
  refine freeOf_iff.mpr ⟨?_, ?_⟩
  · simp [tokens, whole]
  · simp [part?, whole, Assoc.find?]

theorem part?_removeParts (v : Value) (nodes : FinSet Nat) (token : Token) :
    (v.removeParts nodes).part? token =
      if nodes.contains token.node then Option.none else v.part? token := by
  show Assoc.find? token (v.parts.filter _) = if _ then _ else Assoc.find? token v.parts
  induction v.parts with
  | nil => simp [Assoc.find?]
  | cons entry rest ih =>
      obtain ⟨other, part⟩ := entry
      -- Whether an entry stays depends on its token alone, so all entries of a token stay or go.
      by_cases same : token = other
      · subst same
        cases gone : nodes.contains token.node with
        | true =>
            rw [gone, if_pos rfl] at ih
            rw [if_pos rfl, List.filter_cons_of_neg (by simp only [gone]; decide), ih]
        | false =>
            rw [List.filter_cons_of_pos (by simp only [gone]; decide)]
            simp [Assoc.find?]
      · have skipped : Assoc.find? token ((other, part) :: rest) = Assoc.find? token rest := by
          simp [Assoc.find?, same]
        rw [skipped, ← ih, List.filter_cons]
        split
        · simp [Assoc.find?, same]
        · rfl

/-- Removing parts leaves the fields and the parts that were split off at other nodes. -/
theorem stripped_removeParts (v : Value) (nodes : FinSet Nat) :
    v.Stripped nodes (v.removeParts nodes) :=
  ⟨rfl, rfl, rfl, part?_removeParts v nodes⟩

theorem freeOf_removeParts_iff : (v.removeParts nodes).FreeOf nodes ↔ v.KeepsFreeOf nodes := by
  have outermost : ∀ token ∈ (v.removeParts nodes).tokens, nodes.contains token.node = false := by
    intro token member
    obtain ⟨entry, stays, rfl⟩ := List.mem_map.mp member
    simpa using (List.mem_filter.mp stays).2
  have parts : (∀ token part, (v.removeParts nodes).part? token = some part →
      part.FreeOf nodes) ↔ v.KeepsFreeOf nodes := by
    unfold KeepsFreeOf
    refine forall_congr' fun token => forall_congr' fun part => ?_
    rw [part?_removeParts]
    cases nodes.contains token.node <;> simp
  rw [freeOf_iff, parts]
  exact and_iff_right outermost

end Value

/-! ### Returns -/

/-- Where no slot is bottom, neither the callee's nor the caller's, every slot comes back by
    itself. -/
theorem Shape.getSlot_restore_of_filled {s caller : Shape} (nodes : FinSet Nat)
    (own : s.Each (·.isNone = false)) (callers : caller.Each (·.isNone = false)) (slot : Slot) :
    (s.restore caller nodes).getSlot slot = s.returned caller nodes slot := by
  have filled : ¬ (s.refilled caller nodes).trimmed.isSomeNone = true := by
    rw [collapses_iff]
    rintro ⟨slot, bottom⟩
    unfold returned at bottom
    split at bottom
    · exact absurd bottom (Bool.eq_false_iff.mp (own slot))
    · exact absurd bottom (Bool.eq_false_iff.mp (callers slot))
  rw [restore_eq, if_neg filled, getSlot_trimmed_refilled]

namespace HeapObject

open Value

/-- Removing the parts of some nodes strips every value of them, and what a return takes from the
    caller is stripped alike. It is free of the nodes at every depth exactly if the parts that stay
    were, unless the object collapses. -/
theorem restore_freeOf_iff (v : Value) (nodes : FinSet Nat) {t : HeapObject}
    (writable : t.writable = true) (c : HeapObject) :
    (v.Stripped nodes (v.removeParts nodes) ∧
      ((v.removeParts nodes).FreeOf nodes ↔ v.KeepsFreeOf nodes)) ∧
    ∃ o, t.restore c nodes = .ok o ∧
      ∀ slot, (t.shape.getSlot slot).maybeModified = false →
        (o.shape ≠ .none → (c.shape.getSlot slot).Stripped nodes (o.shape.getSlot slot)) ∧
        ((o.shape.getSlot slot).FreeOf nodes ↔
          o.shape = .none ∨ (c.shape.getSlot slot).KeepsFreeOf nodes) := by
  refine ⟨⟨stripped_removeParts v nodes, freeOf_removeParts_iff⟩, _, if_pos writable, ?_⟩
  intro slot unmodified
  by_cases collapsed : t.shape.restore c.shape nodes = .none
  · have whole : (Shape.none.getSlot slot).parts = [] :=
      Shape.getSlot_of_contents (P := (·.parts = [])) (s := .none) nofun (by decide) slot
    refine ⟨absurd collapsed, ?_⟩
    simp only [collapsed, true_or, iff_true]
    exact freeOf_of_whole whole
  · have restored := Shape.getSlot_restore collapsed slot
    rw [Shape.restored, unmodified, if_neg Bool.false_ne_true] at restored
    simp only [restored, collapsed, false_or, freeOf_removeParts_iff, iff_self, and_true]
    exact fun _ => stripped_removeParts _ nodes

/-- The caller's number was split off at a node of its own, its string at one of the callee's: the
    string goes, and the property is free of the callee's node. -/
theorem splitCaller_freeOf :
    ∃ o, halfKnown.restore splitCaller (FinSet.singleton 10) = .ok o ∧
      (o.shape.get (.name "p")).FreeOf (FinSet.singleton 10) := by
  have keeps : (splitCaller.shape.get (.name "p")).KeepsFreeOf (FinSet.singleton 10) := by
    intro token part found kept
    refine freeOf_of_whole ?_
    rcases List.mem_cons.mp (Assoc.mem_of_find?_eq_some found) with same | member
    · cases same
      rfl
    · cases List.mem_singleton.mp member
      cases kept
  obtain ⟨_, o, done, slots⟩ :=
    restore_freeOf_iff (splitCaller.shape.get (.name "p")) (FinSet.singleton 10)
      (t := halfKnown) rfl splitCaller
  exact ⟨o, done, (slots (.property (.name "p")) rfl).2.mpr (.inr keeps)⟩

/-- A string that is split at one node, and that again at another. Removing the parts of the inner
    node leaves the value as it is, and so it comes back from the caller. -/
theorem nestedSplit_comes_back :
    (nestedSplit "x").Built ∧
      ¬ ((nestedSplit "x").removeParts (FinSet.singleton 1)).FreeOf (FinSet.singleton 1) ∧
      ∃ o, (withProperty .unknown).restore (withProperty (nestedSplit "x")) (FinSet.singleton 1) =
          .ok o ∧
        o.shape.get (.name "p") = (nestedSplit "x").removeParts (FinSet.singleton 1) := by
  have filled : ∀ v : Value, v.isNone = false →
      (withProperty v).shape.Each (·.isNone = false) := fun v present =>
    Shape.Each.set (Shape.getSlot_of_contents nofun (by decide)) (.name "p") present
  refine ⟨nestedSplit_built "x", fun free => ?_, _, rfl, ?_⟩
  · have inside : ((nestedSplit "x").removeParts (FinSet.singleton 1)).part?
        (.property ⟨0, 1⟩ 2 (.name "p")) =
      some (partitioned (FinMap.empty.insert (.type ⟨0, 0⟩ 1 .string) (ofString "x"))) := rfl
    cases free _ (.part .self inside) (.type ⟨0, 0⟩ 1 .string) List.mem_cons_self
  · exact Shape.getSlot_restore_of_filled _ (filled .unknown rfl) (filled (nestedSplit "x") rfl)
      (.property (.name "p"))

end HeapObject

end ScriptHeap
