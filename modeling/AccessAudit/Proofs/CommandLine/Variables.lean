import AccessAudit.Proofs.CommandLine.Items

/-!
# Variables of the environment

A variable is consulted for a key that the line does not give.  What it holds is then given like a text of the
line, so that the line and the environment are accepted together if and only if all of these items may be given.
-/

namespace AccessAudit
namespace CommandLine

variable {environment : List (String × String)} {items : List Item}

/-- The text of the variable that stands in for a key, if there is one and it is set. -/
def standInText? (environment : List (String × String)) (k : Key) : Option String :=
  k.standIn?.bind (List.lookup · environment)

/-- The items of keys for which there is a text. -/
def itemsOf (keys : List Key) (text? : Key → Option String) : List Item :=
  keys.filterMap fun k => (text? k).map (.value k)

/-- The items that the environment adds to those of a line. -/
def inherited (environment : List (String × String)) (items : List Item) : List Item :=
  itemsOf Key.all fun k => if textsOf k items = [] then standInText? environment k else none

theorem textsOf_itemsOf
    {keys : List Key}
    (h : keys.Nodup)
    (text? : Key → Option String)
    (k : Key) :
    textsOf k (itemsOf keys text?) = if k ∈ keys then (text? k).toList else [] := by
  induction keys with
  | nil => rfl
  | cons other rest ih =>
      obtain ⟨hother, hrest⟩ := List.nodup_cons.mp h
      have hcons : itemsOf (other :: rest) text? =
          ((text? other).map (Item.value other)).toList ++ itemsOf rest text? := by
        rw [itemsOf, List.filterMap_cons]
        cases text? other <;> rfl
      have hfirst : textsOf k ((text? other).map (Item.value other)).toList =
          if other = k then (text? other).toList else [] := by
        cases text? other with
        | none => simp [textsOf]
        | some text => simpa using textsOf_value k other text
      rw [hcons, textsOf_append, hfirst, ih hrest]
      by_cases hsame : other = k
      · subst hsame
        simp [hother]
      · simp [hsame, Ne.symm hsame]

theorem nodup_all : Key.all.Nodup := by decide

theorem mem_all
    (k : Key) :
    k ∈ Key.all := by
  cases k <;> decide

/-- What stands for a key: the texts of the line or else the one of the variable. -/
theorem textsOf_append_inherited
    (environment : List (String × String))
    (items : List Item)
    (k : Key) :
    textsOf k (items ++ inherited environment items) =
      if textsOf k items = [] then (standInText? environment k).toList else textsOf k items := by
  rw [textsOf_append, inherited, textsOf_itemsOf nodup_all, if_pos (mem_all k)]
  split
  · next hnone => rw [hnone, List.nil_append]
  · exact List.append_nil _

theorem flags_itemsOf
    (keys : List Key)
    (text? : Key → Option String) :
    (itemsOf keys text?).filterMap Item.flag? = [] := by
  rw [List.filterMap_eq_nil_iff]
  intro item hitem
  obtain ⟨k, -, hk⟩ := List.mem_filterMap.mp hitem
  obtain ⟨text, -, rfl⟩ := Option.map_eq_some_iff.mp hk
  rfl

namespace Given

variable {g g' : Given}

theorem addValue_eq_ok
    {k : Key}
    {text : String}
    (h : g.addValue k text = .ok g') :
    g' = g.extend [.value k text] := by
  unfold addValue at h
  rw [extend_value]
  split at h
  · cases h
  · split at h
    · cases h
    · cases h
      rfl

theorem has_extend_value
    {k other : Key}
    (hne : other ≠ k)
    (text : String) :
    (g.extend [.value k text]).has other = g.has other := by
  rw [Bool.eq_iff_iff, ← not_iff_not, Bool.not_eq_true, Bool.not_eq_true, has_eq_false_iff, has_eq_false_iff,
    valuesOf_extend, textsOf_value, if_neg hne.symm, List.append_nil]

/-- The text that the environment has for a key that has not been given. -/
def missingText? (environment : List (String × String)) (g : Given) (k : Key) : Option String :=
  if g.has k then none else standInText? environment k

theorem addVariable_eq
    (environment : List (String × String))
    (g : Given)
    (k : Key) :
    addVariable environment g k =
      match missingText? environment g k with
      | none => .ok g
      | some text => g.addValue k text := by
  unfold addVariable missingText? standInText?
  cases g.has k <;> cases k.standIn?.bind (List.lookup · environment) <;> rfl

/-- Variables are added like items, one for each key that has not been given. -/
theorem foldlM_addVariable
    {keys : List Key}
    (h : keys.Nodup) :
    keys.foldlM (addVariable environment) g =
      (itemsOf keys (missingText? environment g)).foldlM add g := by
  induction keys generalizing g with
  | nil => rfl
  | cons k rest ih =>
      obtain ⟨hk, hrest⟩ := List.nodup_cons.mp h
      rw [List.foldlM_cons, addVariable_eq, itemsOf, List.filterMap_cons]
      cases htext : missingText? environment g k with
      | none => exact ih hrest
      | some text =>
          change _ = g.addValue k text >>= _
          dsimp only
          cases hvalue : g.addValue k text with
          | error fault => rfl
          | ok next =>
              obtain rfl := addValue_eq_ok hvalue
              -- the other keys have been given as before
              have hothers : itemsOf rest (missingText? environment (g.extend [.value k text])) =
                  itemsOf rest (missingText? environment g) := by
                refine List.filterMap_congr fun other hother => ?_
                have hne : other ≠ k := fun hsame => hk (hsame ▸ hother)
                rw [missingText?, missingText?, has_extend_value hne]
              exact (ih hrest).trans (congrArg (List.foldlM add _) hothers)

end Given

/-! ### Acceptance -/

/-- The items of a line are acceptable in an environment: each flag and each key is given no more often than it
may be, nothing is to be shown instead of a run, and the texts of the line and those of the variables that are
consulted are ones that their keys admit. -/
structure Acceptable (environment : List (String × String)) (items : List Item) : Prop where
  flags : ∀ f, f.isCounted = false → items.count (.flag f) ≤ 1
  help : .flag .help ∉ items
  version : .flag .version ∉ items
  keys : ∀ k, k.isCollected = false → (textsOf k items).length ≤ 1
  texts : ∀ k, ∀ text ∈ textsOf k items, k.fault? text = none
  standIns : ∀ k text, textsOf k items = [] → standInText? environment k = some text → k.fault? text = none

/-- What is given by the items of a line and by the environment. -/
def givenBy (environment : List (String × String)) (items : List Item) : Given :=
  ({} : Given).extend (items ++ inherited environment items)

theorem count_flags
    (items : List Item)
    (f : Flag) :
    (items.filterMap Item.flag?).count f = items.count (.flag f) := by
  induction items with
  | nil => rfl
  | cons item rest ih =>
      cases item with
      | flag other => simp [Item.flag?, List.count_cons, ih]
      | value k text => simp [List.filterMap_cons, Item.flag?, ih]

theorem count_flags_givenBy
    (environment : List (String × String))
    (items : List Item)
    (f : Flag) :
    (givenBy environment items).flags.count f = items.count (.flag f) := by
  change ([] ++ (items ++ inherited environment items).filterMap Item.flag?).count f = _
  rw [List.nil_append, List.filterMap_append, inherited, flags_itemsOf, List.append_nil, count_flags]

theorem mem_flags_givenBy
    {f : Flag} :
    f ∈ (givenBy environment items).flags ↔ .flag f ∈ items := by
  rw [← List.count_pos_iff, count_flags_givenBy, List.count_pos_iff]

theorem valuesOf_givenBy
    (environment : List (String × String))
    (items : List Item)
    (k : Key) :
    (givenBy environment items).valuesOf k =
      if textsOf k items = [] then (standInText? environment k).toList else textsOf k items := by
  rw [givenBy, Given.valuesOf_extend, textsOf_append_inherited]
  rfl

theorem acceptable_iff_fits :
    Acceptable environment items ↔ (givenBy environment items).Fits := by
  have htext (k : Key) (text : String) :
      (k, text) ∈ (givenBy environment items).values ↔
        text ∈ if textsOf k items = [] then (standInText? environment k).toList else textsOf k items := by
    rw [← valuesOf_givenBy, Given.mem_valuesOf_iff]
  constructor
  · intro h
    refine ⟨fun f hf => ?_, mem_flags_givenBy.not.mpr h.help, mem_flags_givenBy.not.mpr h.version,
      fun k hk => ?_, fun k text hmem => ?_⟩
    · rw [count_flags_givenBy]
      exact h.flags f hf
    · rw [valuesOf_givenBy]
      split
      · exact Option.length_toList_le
      · exact h.keys k hk
    · rw [htext] at hmem
      split at hmem
      · next hnone => exact h.standIns k text hnone (Option.mem_toList.mp hmem)
      · exact h.texts k text hmem
  · intro h
    refine ⟨fun f hf => ?_, mem_flags_givenBy.not.mp h.help, mem_flags_givenBy.not.mp h.version,
      fun k hk => ?_, fun k text hmem => ?_, fun k text hnone hvariable => ?_⟩
    · rw [← count_flags_givenBy environment]
      exact h.flags f hf
    · by_cases hnone : textsOf k items = []
      · rw [hnone]
        exact Nat.zero_le 1
      · have hlength := h.values k hk
        rwa [valuesOf_givenBy, if_neg hnone] at hlength
    · have hsome : textsOf k items ≠ [] := List.ne_nil_of_mem hmem
      exact h.texts k text ((htext k text).mpr (by rwa [if_neg hsome]))
    · exact h.texts k text ((htext k text).mpr (by rw [if_pos hnone]; exact Option.mem_toList.mpr hvariable))

/-- A line and the environment are read if and only if they are acceptable together, and then each key has its
texts of the line or else the one of its variable. -/
theorem readAll_eq_ok_iff
    {args : List String}
    (h : read args = items.foldlM Given.add {})
    {g : Given} :
    readAll environment args = .ok g ↔ Acceptable environment items ∧ g = givenBy environment items := by
  have hmissing : itemsOf Key.all (Given.missingText? environment (({} : Given).extend items)) =
      inherited environment items := by
    refine congrArg (itemsOf Key.all) (funext fun k => ?_)
    have hnone : (({} : Given).extend items).has k = false ↔ textsOf k items = [] := by
      rw [Given.has_eq_false_iff, Given.valuesOf_extend]
      rfl
    rw [Given.missingText?]
    cases hhas : (({} : Given).extend items).has k with
    | false => simp [hnone.mp hhas]
    | true => simp [hnone.not.mp (by simp [hhas])]
  rw [acceptable_iff_fits, readAll, h]
  constructor
  · intro hread
    obtain ⟨line, hline, hrest⟩ := exists_of_bind_eq_ok hread
    obtain ⟨rfl, hfits⟩ := (Given.foldlM_add_eq_ok_iff Given.fits_empty items).mp hline
    rw [Given.foldlM_addVariable nodup_all, hmissing] at hrest
    obtain ⟨rfl, hall⟩ := (Given.foldlM_add_eq_ok_iff hfits _).mp hrest
    rw [Given.extend_extend] at hall ⊢
    exact ⟨hall, rfl⟩
  · rintro ⟨hall, rfl⟩
    unfold givenBy at hall ⊢
    rw [← Given.extend_extend] at hall ⊢
    have hline := (Given.foldlM_add_eq_ok_iff Given.fits_empty items).mpr ⟨rfl, hall.of_extend⟩
    rw [hline]
    change Key.all.foldlM (Given.addVariable environment) _ = _
    rw [Given.foldlM_addVariable nodup_all, hmissing]
    exact (Given.foldlM_add_eq_ok_iff hall.of_extend _).mpr ⟨rfl, hall⟩

end CommandLine
end AccessAudit
