import AccessAudit.Registry.Response
import Mathlib.Data.List.Count

/-!
# Reading by members

A network, and each of its blocks, is read from the values of its known members.  An edit of a document that
moves members about, or adds members that are not known where they stand, leaves what is read as it was.
-/

namespace AccessAudit
namespace Registry

/-- Whether the known members of an object can be told: all names are texts, and no known name repeats. -/
def Accessible (known : List String) (members : List (Option String × Json)) : Prop :=
  none ∉ members.map Prod.fst ∧ ∀ name ∈ known, (members.map Prod.fst).count (some name) ≤ 1

/-- The value of the first member of a name. -/
def valueAt (members : List (Option String × Json)) (name : String) : Option Json :=
  (members.find? fun (key, _) => key = some name).map (·.2)

section Access

variable {known : List String} {members members' : List (Option String × Json)}

theorem countP_name
    (members : List (Option String × Json))
    (name : String) :
    (members.countP fun (key, _) => key = some name) = (members.map Prod.fst).count (some name) := by
  rw [List.count, List.countP_map]
  exact List.countP_congr fun m _ => by simp

theorem memberAccess_of_accessible
    (h : Accessible known members) :
    memberAccess known members = some (valueAt members) := by
  have hnames : (members.any fun (key, _) => key.isNone) = false := by
    rw [List.any_eq_false]
    rintro ⟨key, v⟩ hm hnone
    rw [Option.isNone_iff_eq_none] at hnone
    subst hnone
    exact h.1 (List.mem_map_of_mem hm)
  have hknown : (known.any fun name => 1 < members.countP fun (key, _) => key = some name) = false := by
    simp only [List.any_eq_false, decide_eq_true_eq, Nat.not_lt, countP_name]
    exact h.2
  rw [memberAccess, hnames, hknown]
  rfl

theorem memberAccess_eq_none
    (h : ¬ Accessible known members) :
    memberAccess known members = none := by
  rw [memberAccess]
  split
  · rfl
  · next hnames =>
      split
      · rfl
      · next hknown =>
          refine absurd ⟨?_, ?_⟩ h
          · intro hmem
            obtain ⟨⟨key, v⟩, hm, hkey⟩ := List.mem_map.mp hmem
            exact hnames (List.any_eq_true.mpr ⟨_, hm, Option.isNone_iff_eq_none.mpr hkey⟩)
          · intro name hname
            rw [← countP_name, ← Nat.not_lt]
            exact fun hlt => hknown (List.any_eq_true.mpr ⟨name, hname, decide_eq_true hlt⟩)

/-- Where a name does not repeat, its value is that of any member of the name. -/
theorem valueAt_eq_some_iff
    {name : String}
    (h : (members.map Prod.fst).count (some name) ≤ 1)
    {v : Json} :
    valueAt members name = some v ↔ (some name, v) ∈ members := by
  induction members with
  | nil => simp [valueAt]
  | cons m members ih =>
      obtain ⟨key, w⟩ := m
      by_cases hkey : key = some name
      · subst hkey
        have hnot : ∀ v, (some name, v) ∉ members := by
          intro v hm
          rw [List.map_cons, List.count_cons_self] at h
          have hpos : 0 < (members.map Prod.fst).count (some name) :=
            List.count_pos_iff.mpr (List.mem_map_of_mem hm)
          omega
        simp [valueAt, hnot, eq_comm]
      · rw [List.map_cons, List.count_cons_of_ne hkey] at h
        have hmem : (some name, v) ∈ (key, w) :: members ↔ (some name, v) ∈ members := by
          simp [Ne.symm hkey]
        rw [hmem, ← ih h]
        simp [valueAt, hkey]

theorem valueAt_eq_none_iff
    {name : String} :
    valueAt members name = none ↔ some name ∉ members.map Prod.fst := by
  simp only [valueAt, Option.map_eq_none_iff, List.find?_eq_none, decide_eq_true_eq, List.mem_map, not_exists,
    not_and]

/-! ### Edits of the members -/

theorem accessible_perm
    (h : members.Perm members') :
    Accessible known members ↔ Accessible known members' := by
  have hkeys := h.map Prod.fst
  simp only [Accessible, hkeys.mem_iff, hkeys.count_eq]

theorem valueAt_perm
    (h : members.Perm members')
    {name : String}
    (hcount : (members.map Prod.fst).count (some name) ≤ 1) :
    valueAt members name = valueAt members' name := by
  have hcount' : (members'.map Prod.fst).count (some name) ≤ 1 :=
    (h.map Prod.fst).count_eq (some name) ▸ hcount
  ext v
  rw [valueAt_eq_some_iff hcount, valueAt_eq_some_iff hcount', h.mem_iff]

theorem accessible_cons
    {key : String}
    (hkey : key ∉ known)
    (v : Json) :
    Accessible known ((some key, v) :: members) ↔ Accessible known members := by
  have hcount : ∀ name ∈ known,
      (((some key, v) :: members).map Prod.fst).count (some name) = (members.map Prod.fst).count (some name) := by
    intro name hname
    rw [List.map_cons, List.count_cons_of_ne]
    rintro hsame
    obtain rfl := Option.some.inj hsame
    exact hkey hname
  simp only [Accessible, List.map_cons, List.mem_cons, reduceCtorEq, false_or]
  exact and_congr_right fun _ => forall₂_congr fun name hname => by rw [← hcount name hname]; rfl

theorem valueAt_cons_of_ne
    {key name : String}
    (h : key ≠ name)
    (v : Json) :
    valueAt ((some key, v) :: members) name = valueAt members name := by
  simp [valueAt, h]

theorem accessible_value
    {before after : List (Option String × Json)}
    {key : Option String}
    (v w : Json) :
    Accessible known (before ++ (key, v) :: after) ↔ Accessible known (before ++ (key, w) :: after) := by
  simp [Accessible]

/-- Another value of a member changes no value but that of its name. -/
theorem valueAt_value
    (before after : List (Option String × Json))
    (key : Option String)
    (v w : Json)
    (name : String) :
    valueAt (before ++ (key, v) :: after) name = valueAt (before ++ (key, w) :: after) name ∨
      key = some name ∧ valueAt (before ++ (key, v) :: after) name = some v ∧
        valueAt (before ++ (key, w) :: after) name = some w := by
  by_cases hbefore : some name ∈ before.map Prod.fst
  · obtain ⟨⟨k, u⟩, hm, hkey⟩ := List.mem_map.mp hbefore
    obtain ⟨m, hfind⟩ : ∃ m, before.find? (fun (key, _) => decide (key = some name)) = some m :=
      Option.isSome_iff_exists.mp (List.find?_isSome.mpr ⟨_, hm, decide_eq_true hkey⟩)
    exact .inl (by simp [valueAt, hfind])
  · have hfind : before.find? (fun (key, _) => decide (key = some name)) = none := by
      simpa [valueAt] using valueAt_eq_none_iff.mpr hbefore
    by_cases hkey : key = some name
    · exact .inr ⟨hkey, by simp [valueAt, hfind, hkey], by simp [valueAt, hfind, hkey]⟩
    · exact .inl (by simp [valueAt, hfind, hkey])

/-! ### What is read of an object -/

/-- The names of the members of a block. -/
def blockMembers : List String :=
  ["v4prefix", "v6prefix", "length"]

theorem network?_object
    (h : Accessible knownMembers members) :
    network? (.object members) =
      networkOf (valueAt members "handle") (valueAt members "name") (valueAt members "country")
        (valueAt members "startAddress") (valueAt members "endAddress") (valueAt members "cidr0_cidrs") := by
  rw [network?, memberAccess_of_accessible h]
  rfl

theorem network?_object_eq_none
    (h : ¬ Accessible knownMembers members) :
    network? (.object members) = none := by
  rw [network?, memberAccess_eq_none h]
  rfl

theorem range?_object
    (h : Accessible blockMembers members) :
    range? (.object members) =
      rangeOf (valueAt members "v4prefix") (valueAt members "v6prefix") (valueAt members "length") := by
  rw [range?, show ["v4prefix", "v6prefix", "length"] = blockMembers from rfl, memberAccess_of_accessible h]
  rfl

theorem range?_object_eq_none
    (h : ¬ Accessible blockMembers members) :
    range? (.object members) = none := by
  rw [range?, show ["v4prefix", "v6prefix", "length"] = blockMembers from rfl, memberAccess_eq_none h]
  rfl

/-- A network is read from its known members only. -/
theorem network?_congr
    (haccess : Accessible knownMembers members ↔ Accessible knownMembers members')
    (htext : Accessible knownMembers members → ∀ name ∈ knownMembers, name ≠ "cidr0_cidrs" →
      text? (valueAt members name) = text? (valueAt members' name))
    (hranges : Accessible knownMembers members →
      ranges? (valueAt members "cidr0_cidrs") = ranges? (valueAt members' "cidr0_cidrs")) :
    network? (.object members) = network? (.object members') := by
  by_cases h : Accessible knownMembers members
  · rw [network?_object h, network?_object (haccess.mp h), networkOf, networkOf,
      htext h "handle" (by decide) (by decide), htext h "name" (by decide) (by decide),
      htext h "country" (by decide) (by decide), htext h "startAddress" (by decide) (by decide),
      htext h "endAddress" (by decide) (by decide), hranges h]
  · rw [network?_object_eq_none h, network?_object_eq_none (haccess.not.mp h)]

/-- A block is read from its known members only. -/
theorem range?_congr
    (haccess : Accessible blockMembers members ↔ Accessible blockMembers members')
    (htext : Accessible blockMembers members → ∀ name ∈ blockMembers, name ≠ "length" →
      text? (valueAt members name) = text? (valueAt members' name))
    (hlength : Accessible blockMembers members →
      length? (valueAt members "length") = length? (valueAt members' "length")) :
    range? (.object members) = range? (.object members') := by
  by_cases h : Accessible blockMembers members
  · rw [range?_object h, range?_object (haccess.mp h), rangeOf, rangeOf,
      htext h "v4prefix" (by decide) (by decide), htext h "v6prefix" (by decide) (by decide), hlength h]
  · rw [range?_object_eq_none h, range?_object_eq_none (haccess.not.mp h)]

end Access

/-! ### Edits of a document -/

/-- The places in a response: the network itself, the list of its blocks, a block, and everything else. -/
inductive Place
  | network
  | blocks
  | block
  | other
  deriving DecidableEq

/-- The names that mean something to the object at a place. -/
def Place.known : Place → List String
  | network => knownMembers
  | block => blockMembers
  | blocks | other => []

/-- The place of the member of a name. -/
def Place.member : Place → Option String → Place
  | network, some "cidr0_cidrs" => blocks
  | _, _ => other

/-- One document is the other with members moved about, and with members added or taken away that are not
known where they stand, at any depth. -/
inductive Edited : Place → Json → Json → Prop
  | refl {place : Place} (j : Json) : Edited place j j
  | symm {place : Place} {j j' : Json} : Edited place j j' → Edited place j' j
  | trans {place : Place} {j j' j'' : Json} : Edited place j j' → Edited place j' j'' → Edited place j j''
  | reorder {place : Place} {members members' : List (Option String × Json)} :
      members.Perm members' → Edited place (.object members) (.object members')
  | add {place : Place} {members : List (Option String × Json)} {key : String} (v : Json) :
      key ∉ place.known → Edited place (.object members) (.object ((some key, v) :: members))
  | member {place : Place} {before after : List (Option String × Json)} {key : Option String} {v v' : Json} :
      Edited (place.member key) v v' →
        Edited place (.object (before ++ (key, v) :: after)) (.object (before ++ (key, v') :: after))
  | block {before after : List Json} {v v' : Json} :
      Edited .block v v' → Edited .blocks (.array (before ++ v :: after)) (.array (before ++ v' :: after))
  | item {before after : List Json} {v v' : Json} :
      Edited .other v v' → Edited .other (.array (before ++ v :: after)) (.array (before ++ v' :: after))

/-- Two documents are read alike at a place. -/
def Place.Agrees : Place → Json → Json → Prop
  | network, j, j' => network? j = network? j'
  | blocks, j, j' => ranges? (some j) = ranges? (some j')
  | block, j, j' => range? j = range? j'
  | other, j, j' => text? (some j) = text? (some j') ∧ length? (some j) = length? (some j')

theorem Place.Agrees.symm
    {place : Place}
    {j j' : Json}
    (h : place.Agrees j j') :
    place.Agrees j' j := by
  cases place with
  | network | blocks | block => exact Eq.symm h
  | other => exact ⟨h.1.symm, h.2.symm⟩

theorem Place.Agrees.trans
    {place : Place}
    {j j' j'' : Json}
    (h : place.Agrees j j')
    (h' : place.Agrees j' j'') :
    place.Agrees j j'' := by
  cases place with
  | network | blocks | block => exact Eq.trans h h'
  | other => exact ⟨h.1.trans h'.1, h.2.trans h'.2⟩

/-- Objects agree where their known members can be told alike and have the same values. -/
theorem Place.agrees_object
    {place : Place}
    {members members' : List (Option String × Json)}
    (haccess : Accessible place.known members ↔ Accessible place.known members')
    (hvalue : Accessible place.known members → ∀ name ∈ place.known,
      valueAt members name = valueAt members' name) :
    place.Agrees (.object members) (.object members') := by
  cases place with
  | network =>
      exact network?_congr haccess (fun h name hname _ => congrArg text? (hvalue h name hname))
        (fun h => congrArg ranges? (hvalue h _ (by decide)))
  | block =>
      exact range?_congr haccess (fun h name hname _ => congrArg text? (hvalue h name hname))
        (fun h => congrArg length? (hvalue h _ (by decide)))
  | blocks => rfl
  | other => exact ⟨rfl, rfl⟩

theorem Place.agrees_value
    {place : Place}
    {before after : List (Option String × Json)}
    {key : Option String}
    {v v' : Json}
    (h : (place.member key).Agrees v v') :
    place.Agrees (.object (before ++ (key, v) :: after)) (.object (before ++ (key, v') :: after)) := by
  have hcases := valueAt_value before after key v v'
  cases place with
  | network =>
      refine network?_congr (accessible_value v v') (fun _ name _ hname => ?_) (fun _ => ?_)
      · obtain hsame | ⟨rfl, hv, hv'⟩ := hcases name
        · rw [hsame]
        · rw [Place.member] at h
          · rw [hv, hv']
            exact h.1
          · intro _ hkey
            exact hname (Option.some.inj hkey)
      · obtain hsame | ⟨rfl, hv, hv'⟩ := hcases "cidr0_cidrs"
        · rw [hsame]
        · rw [hv, hv']
          exact h
  | block =>
      refine range?_congr (accessible_value v v') (fun _ name _ _ => ?_) (fun _ => ?_)
      · obtain hsame | ⟨-, hv, hv'⟩ := hcases name
        · rw [hsame]
        · rw [hv, hv']
          exact h.1
      · obtain hsame | ⟨-, hv, hv'⟩ := hcases "length"
        · rw [hsame]
        · rw [hv, hv']
          exact h.2
  | blocks => rfl
  | other => exact ⟨rfl, rfl⟩

/-- Edited documents are read alike. -/
theorem Edited.agrees
    {place : Place}
    {j j' : Json}
    (h : Edited place j j') :
    place.Agrees j j' := by
  induction h with
  | @refl place j =>
      cases place with
      | network | blocks | block => exact Eq.refl _
      | other => exact ⟨rfl, rfl⟩
  | symm _ ih => exact ih.symm
  | trans _ _ ih ih' => exact ih.trans ih'
  | reorder hperm =>
      exact Place.agrees_object (accessible_perm hperm) fun h name hname => valueAt_perm hperm (h.2 name hname)
  | add v hkey =>
      refine Place.agrees_object (accessible_cons hkey v).symm fun _ name hname => ?_
      rw [valueAt_cons_of_ne]
      rintro rfl
      exact hkey hname
  | member _ ih => exact Place.agrees_value ih
  | @block before after v v' _ ih =>
      have hrange : range? v = range? v' := ih
      simp [Place.Agrees, ranges?, hrange]
  | item _ _ => exact ⟨rfl, rfl⟩

end Registry
end AccessAudit
