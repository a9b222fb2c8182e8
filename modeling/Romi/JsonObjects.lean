import Mathlib.Data.String.Basic
import Romi.JsonValue

/-!
# Objects with their members in key order

A decoded object keeps its members in ascending order of their keys and each
key once, so two objects that answer every lookup alike are the same object.
-/

namespace Romi.JsonObjects

open JsonValue

variable {α : Type}

/-- Members in ascending order of their keys, each key once. -/
def Ascending (members : List (String × α)) : Prop := members.Pairwise fun a b => a.1 < b.1

/-- Sets one member, in its place. -/
def insertMember (key : String) (value : α) : List (String × α) → List (String × α)
  | [] => [(key, value)]
  | m :: rest =>
    if key < m.1 then (key, value) :: m :: rest
    else if key = m.1 then (key, value) :: rest
    else m :: insertMember key value rest

/-- A member is the one inserted or was there. -/
theorem mem_insertMember {key : String} {value : α} {members : List (String × α)}
    {m : String × α} (h : m ∈ insertMember key value members) : m = (key, value) ∨ m ∈ members := by
  induction members with
  | nil => exact .inl (List.mem_singleton.mp h)
  | cons a rest ih =>
    unfold insertMember at h
    split at h
    · rcases List.mem_cons.mp h with h | h
      · exact .inl h
      · exact .inr h
    · split at h
      · rcases List.mem_cons.mp h with h | h
        · exact .inl h
        · exact .inr (List.mem_cons_of_mem a h)
      · rcases List.mem_cons.mp h with h | h
        · exact .inr (h ▸ List.mem_cons_self)
        · rcases ih h with h | h
          · exact .inl h
          · exact .inr (List.mem_cons_of_mem a h)

/-- No members are in order. -/
theorem ascending_nil : Ascending ([] : List (String × α)) := List.Pairwise.nil

/-- Setting a member keeps the order. -/
theorem Ascending.insertMember {members : List (String × α)} (h : Ascending members)
    (key : String) (value : α) : Ascending (insertMember key value members) := by
  induction members with
  | nil => exact List.pairwise_singleton _ _
  | cons a rest ih =>
    have hcons := h
    rw [Ascending, List.pairwise_cons] at hcons
    obtain ⟨hfirst, hrest⟩ := hcons
    unfold JsonObjects.insertMember
    by_cases hlt : key < a.1
    · rw [if_pos hlt, Ascending, List.pairwise_cons]
      refine ⟨?_, h⟩
      intro m hm
      rcases List.mem_cons.mp hm with rfl | hm
      · exact hlt
      · exact hlt.trans (hfirst m hm)
    · rw [if_neg hlt]
      by_cases heq : key = a.1
      · rw [if_pos heq, Ascending, List.pairwise_cons]
        exact ⟨fun m hm => heq ▸ hfirst m hm, hrest⟩
      · rw [if_neg heq, Ascending, List.pairwise_cons]
        refine ⟨?_, ih hrest⟩
        intro m hm
        rcases mem_insertMember hm with rfl | hm
        · exact lt_of_le_of_ne (not_lt.mp hlt) (Ne.symm heq)
        · exact hfirst m hm

/-- A key before every other is not among them. -/
theorem lookup_of_lt {members : List (String × α)} {key : String}
    (h : ∀ m ∈ members, key < m.1) : members.lookup key = none := by
  induction members with
  | nil => rfl
  | cons a rest ih =>
    have hne : key ≠ a.1 := (h a List.mem_cons_self).ne
    rw [List.lookup_cons, beq_false_of_ne hne]
    exact ih fun m hm => h m (List.mem_cons_of_mem a hm)

/-- Setting a member answers lookups of its key and leaves the others alone. -/
theorem lookup_insertMember {members : List (String × α)} (h : Ascending members)
    (key k : String) (value : α) :
    (insertMember key value members).lookup k =
      if k = key then some value else members.lookup k := by
  induction members with
  | nil =>
    rw [insertMember, List.lookup_cons]
    by_cases hk : k = key
    · rw [if_pos hk, hk, beq_self_eq_true]
    · rw [if_neg hk, beq_false_of_ne hk]
  | cons a rest ih =>
    rw [Ascending, List.pairwise_cons] at h
    unfold insertMember
    by_cases hlt : key < a.1
    · rw [if_pos hlt, List.lookup_cons]
      by_cases hk : k = key
      · rw [if_pos hk, hk, beq_self_eq_true]
      · rw [if_neg hk, beq_false_of_ne hk]
    · rw [if_neg hlt]
      by_cases heq : key = a.1
      · rw [if_pos heq, List.lookup_cons]
        by_cases hk : k = key
        · rw [if_pos hk, hk, beq_self_eq_true]
        · rw [if_neg hk, beq_false_of_ne hk, List.lookup_cons, beq_false_of_ne (heq ▸ hk)]
      · rw [if_neg heq, List.lookup_cons, List.lookup_cons, ih h.2]
        by_cases hk : k = a.1
        · have hne : a.1 ≠ key := fun hkey => heq hkey.symm
          simp only [hk, beq_self_eq_true, if_neg hne]
        · rw [beq_false_of_ne hk]

/-- Members that stay keep their order. -/
theorem Ascending.filter {members : List (String × α)} (h : Ascending members)
    (p : String × α → Bool) : Ascending (members.filter p) := List.Pairwise.filter p h

/-- Keeping some keys answers lookups of those and of no others. -/
theorem lookup_filter (members : List (String × α)) (p : String → Bool) (k : String) :
    (members.filter fun m => p m.1).lookup k = if p k = true then members.lookup k else none := by
  induction members with
  | nil =>
    split <;> rfl
  | cons a rest ih =>
    by_cases ha : p a.1 = true
    · rw [List.filter_cons, if_pos ha, List.lookup_cons, List.lookup_cons, ih]
      by_cases hk : k = a.1
      · simp only [hk, beq_self_eq_true, if_pos ha]
      · rw [beq_false_of_ne hk]
    · rw [List.filter_cons, if_neg ha, ih, List.lookup_cons]
      by_cases hk : k = a.1
      · rw [hk, if_neg ha, if_neg ha]
      · rw [beq_false_of_ne hk]

/-- A member is what is looked up under its key. -/
theorem lookup_of_mem {members : List (String × α)} (h : Ascending members) {m : String × α}
    (hm : m ∈ members) : members.lookup m.1 = some m.2 := by
  induction members with
  | nil => cases hm
  | cons a rest ih =>
    rw [Ascending, List.pairwise_cons] at h
    rw [List.lookup_cons]
    rcases List.mem_cons.mp hm with rfl | hm
    · rw [beq_self_eq_true]
    · rw [beq_false_of_ne (h.1 m hm).ne']
      exact ih h.2 hm

/-- Two objects that answer every lookup alike are the same. -/
theorem ascending_ext {l m : List (String × α)} (hl : Ascending l) (hm : Ascending m)
    (h : ∀ k, l.lookup k = m.lookup k) : l = m := by
  induction l generalizing m with
  | nil =>
    cases m with
    | nil => rfl
    | cons b rest =>
      have hb := h b.1
      rw [List.lookup_cons, beq_self_eq_true] at hb
      cases hb
  | cons a l ih =>
    cases m with
    | nil =>
      have ha := h a.1
      rw [List.lookup_cons, beq_self_eq_true] at ha
      cases ha
    | cons b m =>
      have hl' := hl
      have hm' := hm
      rw [Ascending, List.pairwise_cons] at hl' hm'
      have hkey : a.1 = b.1 := by
        rcases lt_trichotomy a.1 b.1 with hlt | heq | hgt
        · have hnone : (b :: m).lookup a.1 = none := lookup_of_lt (by
            intro x hx
            rcases List.mem_cons.mp hx with rfl | hx
            · exact hlt
            · exact hlt.trans (hm'.1 x hx))
          rw [← h, List.lookup_cons, beq_self_eq_true] at hnone
          cases hnone
        · exact heq
        · have hnone : (a :: l).lookup b.1 = none := lookup_of_lt (by
            intro x hx
            rcases List.mem_cons.mp hx with rfl | hx
            · exact hgt
            · exact hgt.trans (hl'.1 x hx))
          rw [h, List.lookup_cons, beq_self_eq_true] at hnone
          cases hnone
      have hvalue := h a.1
      rw [List.lookup_cons, List.lookup_cons, hkey, beq_self_eq_true, Option.some.injEq] at hvalue
      have hhead : a = b := Prod.ext hkey hvalue
      subst hhead
      congr 1
      refine ih hl'.2 hm'.2 ?_
      intro k
      by_cases hk : k = a.1
      · rw [hk, lookup_of_lt hl'.1, lookup_of_lt hm'.1]
      · have hrest := h k
        rwa [List.lookup_cons, List.lookup_cons, beq_false_of_ne hk] at hrest

/-- An object made of some members, the later of two with one key. -/
def collect (fields : List (String × Json)) : Json :=
  .obj (fields.foldl (fun m f => insertMember f.1 f.2 m) [])

/-- `value[key] = member` on an object. -/
def setMember (v : Json) (key : String) (member : Json) : Json :=
  match v with
  | .obj members => .obj (insertMember key member members)
  | other => other

/-- The members of an object are in order. -/
def Ordered : Json → Prop
  | .obj members => Ascending members
  | _ => True

/-- Setting a member of an object and reading it, or another, back. -/
theorem get_setMember {members : List (String × Json)} (h : Ascending members)
    (key k : String) (member : Json) :
    (setMember (.obj members) key member).get k =
      if k = key then some member else (Json.obj members).get k :=
  lookup_insertMember h key k member

/-- The members of a decoded object. -/
structure Members where
  /-- The members. -/
  list : List (String × Json)
  /-- By ascending key, each key once. -/
  ascending : Ascending list

namespace Members

/-- The object itself. -/
def toJson (m : Members) : Json := .obj m.list

/-- The member under a key. -/
def get (m : Members) (key : String) : Option Json := m.list.lookup key

/-- `insert`. -/
def insert (m : Members) (key : String) (value : Json) : Members :=
  ⟨insertMember key value m.list, m.ascending.insertMember key value⟩

/-- A map is read as the object it makes. -/
@[simp] theorem toJson_get (m : Members) (key : String) : m.toJson.get key = m.get key := rfl

/-- Inserting a member changes that one only. -/
theorem get_insert (m : Members) (key k : String) (value : Json) :
    (m.insert key value).get k = if k = key then some value else m.get k :=
  lookup_insertMember m.ascending key k value

end Members

end Romi.JsonObjects
