import AccessAudit.Proofs.CommandLine.Items
import AccessAudit.Proofs.Text.Split

/-!
# The words of a line

A flag is a word by its long name, and flags with letters may stand together in one word.  A key is a word by
its long name with an equals sign before its text, or by its letter, which may stand behind letters of flags.
Reading such words is adding their items one by one.
-/

namespace AccessAudit
namespace CommandLine

/-- The letters of flags. -/
def AreLetters (fs : List Flag) (cs : List Char) : Prop :=
  List.Forall₂ (fun f c => f.letter? = some c) fs cs

/-- A word that gives items, with the text of a key behind an equals sign. -/
inductive Spells : List Item → String → Prop
  | flagName (f : Flag) : Spells [.flag f] ("--" ++ f.name)
  | keyName (k : Key) (text : String) : Spells [.value k text] ("--" ++ k.name ++ "=" ++ text)
  | letters {f : Flag} {fs : List Flag} {c : Char} {cs : List Char} :
      AreLetters (f :: fs) (c :: cs) →
      Spells ((f :: fs).map .flag) (String.ofList ('-' :: c :: cs))
  | keyLetter {fs : List Flag} {cs : List Char} {k : Key} {c : Char} (text : String) :
      AreLetters fs cs → k.letter? = some c →
      Spells (fs.map .flag ++ [.value k text]) (String.ofList ('-' :: cs ++ c :: '=' :: text.toList))

/-- Words that give items, one word after the other. -/
inductive Spelled : List Item → List String → Prop
  | nil : Spelled [] []
  | cons {piece items : List Item} {text : String} {texts : List String} :
      Spells piece text → Spelled items texts → Spelled (piece ++ items) (text :: texts)

/-! ### Names and letters -/

theorem ofName?_name
    (s : Switch) :
    Switch.ofName? s.name.toList = some s := by
  rcases s with f | k
  · cases f <;> decide
  · cases k <;> decide

theorem ofLetter?_of_letter?
    {s : Switch}
    {c : Char}
    (h : s.letter? = some c) :
    Switch.ofLetter? c = some s := by
  rcases s with f | k
  · cases f <;> cases h <;> decide
  · cases k <;> cases h <;> decide

theorem equals_not_mem_name
    (s : Switch) :
    '=' ∉ s.name.toList := by
  rcases s with f | k
  · cases f <;> decide
  · cases k <;> decide

theorem name_ne_nil
    (s : Switch) :
    s.name.toList ≠ [] := by
  rcases s with f | k
  · cases f <;> decide
  · cases k <;> decide

theorem ne_minus_of_letter?
    {s : Switch}
    {c : Char}
    (h : s.letter? = some c) :
    c ≠ '-' := by
  rcases s with f | k
  · cases f <;> cases h <;> decide
  · cases k <;> cases h <;> decide

/-- Letters of flags with the letter of a key behind them do not begin with a minus sign. -/
theorem exists_cons_of_areLetters
    {fs : List Flag}
    {cs : List Char}
    (h : AreLetters fs cs)
    {k : Key}
    {c : Char}
    (hkey : k.letter? = some c)
    (more : List Char) :
    ∃ d ds, cs ++ c :: more = d :: ds ∧ d ≠ '-' := by
  cases h with
  | nil => exact ⟨c, more, rfl, ne_minus_of_letter? (s := .key k) hkey⟩
  | cons hfirst _ => exact ⟨_, _, rfl, ne_minus_of_letter? (s := .flag _) hfirst⟩

/-- A word that gives items is not the one that ends the switches. -/
theorem ne_end_of_spells
    {piece : List Item}
    {text : String}
    (h : Spells piece text) :
    text ≠ "--" := by
  intro hend
  have hchars : text.toList = ['-', '-'] := by
    rw [hend]
    rfl
  cases h with
  | flagName f =>
      have hnone : f.name.toList = [] := by simpa using hchars
      exact name_ne_nil (.flag f) hnone
  | keyName k text => simp at hchars
  | @letters f fs c cs hletters =>
      obtain ⟨hfirst, -⟩ := List.forall₂_cons.mp hletters
      rw [String.toList_ofList] at hchars
      cases hchars
      exact ne_minus_of_letter? (s := .flag f) hfirst rfl
  | @keyLetter fs cs k c text hletters hkey =>
      obtain ⟨d, ds, hds, hne⟩ := exists_cons_of_areLetters hletters hkey ('=' :: text.toList)
      rw [String.toList_ofList, List.cons_append, hds] at hchars
      cases hchars
      exact hne rfl

/-! ### Reading a word -/

namespace Progress

variable {g : Given}

/-- Reading with nothing left to be looked at. -/
def settled (g : Given) : Progress := { given := g }

theorem flag_settled
    (g : Given)
    (f : Flag) :
    (settled g).flag f = (g.add (.flag f)).map settled := by
  change (g.addFlag f >>= _) = (g.addFlag f).map settled
  cases g.addFlag f <;> rfl

theorem key_settled
    (g : Given)
    (k : Key)
    (text : String) :
    (settled g).key k (some text) = (g.add (.value k text)).map settled := by
  change (g.addValue k text >>= _) = (g.addValue k text).map settled
  cases g.addValue k text <;> rfl

theorem foldlM_add_singleton
    (g : Given)
    (item : Item) :
    [item].foldlM Given.add g = g.add item := by
  rw [List.foldlM_cons]
  cases g.add item <;> rfl

/-- Letters of flags are read one by one, and then what stands behind them. -/
theorem letters_append
    {fs : List Flag}
    {cs : List Char}
    (h : AreLetters fs cs)
    (g : Given)
    (more : List Char) :
    (settled g).letters (cs ++ more) =
      (fs.map Item.flag).foldlM Given.add g >>= fun g => (settled g).letters more := by
  induction h generalizing g with
  | nil => rfl
  | @cons f c fs cs hletter _ ih =>
      rw [List.cons_append, letters, ofLetter?_of_letter? (s := .flag f) hletter]
      change ((settled g).flag f >>= _) = _
      rw [flag_settled, List.map_cons, List.foldlM_cons]
      cases g.add (.flag f) with
      | error fault => rfl
      | ok next => exact ih next

theorem letters_keyLetter
    {k : Key}
    {c : Char}
    (h : k.letter? = some c)
    (g : Given)
    (text : String) :
    (settled g).letters (c :: '=' :: text.toList) = (g.add (.value k text)).map settled := by
  rw [letters, ofLetter?_of_letter? (s := .key k) h, ← key_settled]
  simp

theorem long_flagName
    (g : Given)
    (f : Flag) :
    (settled g).long f.name.toList = (g.add (.flag f)).map settled := by
  have hcut : Text.splitOnce '=' f.name.toList = none :=
    Text.splitOnce_of_not_mem (equals_not_mem_name (.flag f))
  have hname : Switch.ofName? f.name.toList = some (.flag f) := ofName?_name (.flag f)
  rw [long, hcut, ← flag_settled]
  dsimp only
  rw [hname]

theorem long_keyName
    (g : Given)
    (k : Key)
    (text : String) :
    (settled g).long (k.name.toList ++ '=' :: text.toList) = (g.add (.value k text)).map settled := by
  have hcut : Text.splitOnce '=' (k.name.toList ++ '=' :: text.toList) = some (k.name.toList, text.toList) :=
    Text.splitOnce_append (equals_not_mem_name (.key k)) text.toList
  have hname : Switch.ofName? k.name.toList = some (.key k) := ofName?_name (.key k)
  rw [long, hcut, ← key_settled]
  dsimp only
  rw [hname, String.ofList_toList]

theorem word_of_minuses
    (g : Given)
    {text : String}
    {s : List Char}
    (h : text.toList = '-' :: '-' :: s) :
    (settled g).word text = (settled g).long s := by
  rw [word, h]
  rfl

/-- Where no value is awaited, a word behind a minus sign is made of letters. -/
theorem word_of_minus
    (g : Given)
    {text : String}
    {c : Char}
    {cs : List Char}
    (hc : c ≠ '-')
    (h : text.toList = '-' :: c :: cs) :
    (settled g).word text = (settled g).letters (c :: cs) := by
  rw [word, h]
  split
  · next heq =>
      cases heq
      exact absurd rfl hc
  · next heq =>
      cases heq
      exact if_neg (by simp [awaitsNegative, settled])
  · next hother => exact absurd rfl (hother c cs)

/-- A word is read by adding its items. -/
theorem word_of_spells
    {piece : List Item}
    {text : String}
    (h : Spells piece text)
    (g : Given) :
    (settled g).word text = (piece.foldlM Given.add g).map settled := by
  cases h with
  | flagName f =>
      rw [word_of_minuses g (s := f.name.toList) (by simp), long_flagName, foldlM_add_singleton]
  | keyName k text =>
      rw [word_of_minuses g (s := k.name.toList ++ '=' :: text.toList) (by simp), long_keyName,
        foldlM_add_singleton]
  | @letters f fs c cs hletters =>
      obtain ⟨hfirst, -⟩ := List.forall₂_cons.mp hletters
      rw [word_of_minus g (ne_minus_of_letter? (s := .flag f) hfirst) String.toList_ofList,
        ← List.append_nil (c :: cs), letters_append hletters]
      cases ((f :: fs).map Item.flag).foldlM Given.add g <;> rfl
  | @keyLetter fs cs k c text hletters hkey =>
      obtain ⟨d, ds, hds, hne⟩ := exists_cons_of_areLetters hletters hkey ('=' :: text.toList)
      rw [word_of_minus g hne (by rw [String.toList_ofList, List.cons_append, hds]), ← hds,
        letters_append hletters, List.foldlM_append]
      cases (fs.map Item.flag).foldlM Given.add g with
      | error fault => rfl
      | ok next =>
          change (settled next).letters _ = ([.value k text].foldlM Given.add next).map settled
          rw [letters_keyLetter hkey, foldlM_add_singleton]

/-! ### Reading a line -/

/-- A line is read by adding its items. -/
theorem words_of_spelled
    {items : List Item}
    {texts : List String}
    (h : Spelled items texts)
    (g : Given) :
    (settled g).words texts = items.foldlM Given.add g := by
  induction h generalizing g with
  | nil => rfl
  | @cons piece items text texts hword _ ih =>
      rw [words.eq_def]
      dsimp only
      rw [if_neg (ne_end_of_spells hword), word_of_spells hword, List.foldlM_append]
      cases piece.foldlM Given.add g with
      | error fault => rfl
      | ok next => exact ih next

end Progress

theorem read_of_spelled
    {items : List Item}
    {args : List String}
    (h : Spelled items args) :
    read args = items.foldlM Given.add {} :=
  Progress.words_of_spelled h {}

end CommandLine
end AccessAudit
