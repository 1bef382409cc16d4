import AccessAudit.CommandLine.Reading
import AccessAudit.Proofs.Basic
import Mathlib.Data.List.Nodup

/-!
# What has been given

What has been given is a list of flags and of keys with texts.  Whether it may be given does not depend on the
order: each flag and each key is there no more often than it may be, and each text is one that its key admits.
A variable of the environment is one more item for each key that stands in the line with no text.
-/

namespace AccessAudit
namespace CommandLine

/-- A flag, or a key with a text. -/
inductive Item
  | flag (f : Flag)
  | value (k : Key) (text : String)
  deriving DecidableEq

namespace Item

/-- The flag of an item that is one. -/
def flag? : Item → Option Flag
  | .flag f => some f
  | .value _ _ => none

/-- The key and the text of an item that has them. -/
def value? : Item → Option (Key × String)
  | .flag _ => none
  | .value k text => some (k, text)

end Item

/-- The texts that a key has been given, in order. -/
def textsOf (k : Key) (items : List Item) : List String :=
  items.filterMap fun
    | .value other text => if other = k then some text else none
    | .flag _ => none

theorem textsOf_append
    (k : Key)
    (items more : List Item) :
    textsOf k (items ++ more) = textsOf k items ++ textsOf k more :=
  List.filterMap_append

theorem textsOf_value
    (k other : Key)
    (text : String) :
    textsOf k [.value other text] = if other = k then [text] else [] := by
  unfold textsOf
  split
  · next h => simp [h]
  · next h => simp [h]

namespace Given

variable {g g' : Given}

/-! ### Items -/

/-- What has been given with more items. -/
def extend (g : Given) (items : List Item) : Given where
  flags := g.flags ++ items.filterMap Item.flag?
  values := g.values ++ items.filterMap Item.value?

theorem extend_nil
    (g : Given) :
    g.extend [] = g := by
  simp [extend]

theorem extend_extend
    (g : Given)
    (items more : List Item) :
    (g.extend items).extend more = g.extend (items ++ more) := by
  simp [extend]

theorem extend_flag
    (g : Given)
    (f : Flag) :
    g.extend [.flag f] = { g with flags := g.flags ++ [f] } :=
  congrArg (Given.mk _) (List.append_nil _)

theorem extend_value
    (g : Given)
    (k : Key)
    (text : String) :
    g.extend [.value k text] = { g with values := g.values ++ [(k, text)] } :=
  congrArg (Given.mk · _) (List.append_nil _)

/-- Adds an item. -/
def add (g : Given) : Item → Except OptionFault Given
  | .flag f => g.addFlag f
  | .value k text => g.addValue k text

theorem valuesOf_extend
    (g : Given)
    (items : List Item)
    (k : Key) :
    (g.extend items).valuesOf k = g.valuesOf k ++ textsOf k items := by
  unfold valuesOf extend textsOf
  rw [List.filterMap_append, List.filterMap_filterMap]
  congr 2
  funext item
  cases item <;> rfl

theorem mem_valuesOf_iff
    {k : Key}
    {text : String} :
    text ∈ g.valuesOf k ↔ (k, text) ∈ g.values := by
  simp [valuesOf]

theorem has_eq_false_iff
    {k : Key} :
    g.has k = false ↔ g.valuesOf k = [] := by
  simp [has, valuesOf, List.filterMap_eq_nil_iff]

/-! ### What may be given -/

/-- Each flag and each key has been given no more often than it may be, and with texts that it admits. -/
structure Fits (g : Given) : Prop where
  flags : ∀ f, f.isCounted = false → g.flags.count f ≤ 1
  help : .help ∉ g.flags
  version : .version ∉ g.flags
  values : ∀ k, k.isCollected = false → (g.valuesOf k).length ≤ 1
  texts : ∀ k text, (k, text) ∈ g.values → k.fault? text = none

theorem fits_empty : Fits {} :=
  ⟨fun _ _ => Nat.zero_le 1, List.not_mem_nil, List.not_mem_nil, fun _ _ => Nat.zero_le 1, nofun⟩

/-- What fits, fits without the last items. -/
theorem Fits.of_extend
    {items : List Item}
    (h : (g.extend items).Fits) :
    g.Fits where
  flags f hf := (List.sublist_append_left _ _).count_le f |>.trans (h.flags f hf)
  help hmem := h.help (List.mem_append_left _ hmem)
  version hmem := h.version (List.mem_append_left _ hmem)
  values k hk := by
    have hlength := h.values k hk
    rw [valuesOf_extend, List.length_append] at hlength
    omega
  texts k text hmem := h.texts k text (List.mem_append_left _ hmem)

/-- A flag that shows something instead of a run does not fit, and another one may be repeated if it is
counted. -/
theorem fits_extend_flag
    (h : g.Fits)
    (f : Flag) :
    (g.extend [.flag f]).Fits ↔
      f ≠ .help ∧ f ≠ .version ∧ (f.isCounted = false → f ∉ g.flags) := by
  rw [extend_flag]
  constructor
  · intro hfits
    refine ⟨?_, ?_, fun hf hmem => ?_⟩
    · rintro rfl
      exact hfits.help (List.mem_append_right _ List.mem_cons_self)
    · rintro rfl
      exact hfits.version (List.mem_append_right _ List.mem_cons_self)
    · have hcount := hfits.flags f hf
      rw [List.count_append, List.count_singleton_self] at hcount
      exact absurd (List.count_pos_iff.mpr hmem) (by omega)
  · rintro ⟨hhelp, hversion, honce⟩
    refine ⟨fun other hother => ?_, ?_, ?_, h.values, h.texts⟩
    · rw [List.count_append]
      by_cases hsame : f = other
      · subst hsame
        rw [List.count_eq_zero.mpr (honce hother), List.count_singleton_self]
      · have hother' : [f].count other = 0 := List.count_eq_zero.mpr (by simpa using Ne.symm hsame)
        rw [hother']
        exact h.flags other hother
    · simpa [Ne.symm hhelp] using h.help
    · simpa [Ne.symm hversion] using h.version

/-- A text fits if its key admits it, and a key may be repeated if it collects its texts. -/
theorem fits_extend_value
    (h : g.Fits)
    (k : Key)
    (text : String) :
    (g.extend [.value k text]).Fits ↔
      (k.isCollected = false → g.has k = false) ∧ k.fault? text = none := by
  have hvaluesOf (other : Key) := valuesOf_extend g [.value k text] other
  simp only [textsOf_value] at hvaluesOf
  rw [extend_value] at hvaluesOf ⊢
  simp only [has_eq_false_iff]
  constructor
  · intro hfits
    refine ⟨fun hk => ?_, hfits.texts k text (List.mem_append_right _ List.mem_cons_self)⟩
    have hlength := hfits.values k hk
    rw [hvaluesOf, if_pos rfl, List.length_append, List.length_singleton] at hlength
    exact List.length_eq_zero_iff.mp (by omega)
  · rintro ⟨honce, htext⟩
    refine ⟨h.flags, h.help, h.version, fun other hother => ?_, fun other text' hmem => ?_⟩
    · rw [hvaluesOf]
      split
      · next hsame =>
          subst hsame
          rw [honce hother]
          exact le_rfl
      · rw [List.append_nil]
        exact h.values other hother
    · rcases List.mem_append.mp hmem with hmem | hmem
      · exact h.texts other text' hmem
      · cases List.mem_singleton.mp hmem
        exact htext

/-- An item is added if and only if what has been given fits with it. -/
theorem add_eq_ok_iff
    (h : g.Fits)
    (item : Item) :
    g.add item = .ok g' ↔ g' = g.extend [item] ∧ g'.Fits := by
  have hextended {admitted : Prop} (hiff : (g.extend [item]).Fits ↔ admitted) :
      g' = g.extend [item] ∧ g'.Fits ↔ admitted ∧ g.extend [item] = g' := by
    rw [← hiff]
    constructor
    · rintro ⟨rfl, hfits⟩
      exact ⟨hfits, rfl⟩
    · rintro ⟨hfits, rfl⟩
      exact ⟨rfl, hfits⟩
  cases item with
  | flag f =>
      rw [hextended (fits_extend_flag h f), extend_flag, add]
      by_cases hmem : f ∈ g.flags
      · cases f <;> simp [addFlag, Flag.isCounted, hmem]
      · cases f <;> simp [addFlag, Flag.isCounted, hmem]
  | value k text =>
      rw [hextended (fits_extend_value h k text), extend_value, add, addValue]
      cases k.isCollected <;> cases g.has k <;> cases k.fault? text <;> simp

/-- Items are added one by one if and only if what has been given fits with all of them. -/
theorem foldlM_add_eq_ok_iff
    (h : g.Fits)
    (items : List Item) :
    items.foldlM add g = .ok g' ↔ g' = g.extend items ∧ g'.Fits := by
  induction items generalizing g with
  | nil =>
      rw [extend_nil]
      constructor
      · rintro hg
        cases hg
        exact ⟨rfl, h⟩
      · rintro ⟨rfl, -⟩
        rfl
  | cons item rest ih =>
      rw [List.foldlM_cons, ← List.singleton_append, ← extend_extend]
      constructor
      · intro hfold
        obtain ⟨next, hadd, hrest⟩ := exists_of_bind_eq_ok hfold
        obtain ⟨rfl, hnext⟩ := (add_eq_ok_iff h item).mp hadd
        exact (ih hnext).mp hrest
      · rintro ⟨rfl, hfits⟩
        have hadd := (add_eq_ok_iff h item).mpr ⟨rfl, hfits.of_extend⟩
        rw [hadd]
        exact (ih hfits.of_extend).mpr ⟨rfl, hfits⟩

end Given
end CommandLine
end AccessAudit
