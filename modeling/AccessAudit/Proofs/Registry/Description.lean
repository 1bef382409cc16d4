import AccessAudit.Proofs.Registry.Grammar
import AccessAudit.Proofs.Registry.Members
import Mathlib

/-!
# Responses are read by their members

What a response says of a network is told by the members that its object has: by their names and values, in
whatever order and company they stand and however they are written.
-/

namespace AccessAudit
namespace Registry

/-- The members of an object, of which no two have the same name. -/
structure Fields where
  members : List (String × Json)
  nodup : (members.map Prod.fst).Nodup

namespace Fields

variable (f : Fields)

/-- The object itself. -/
def document : Json :=
  .object (f.members.map fun m => (some m.1, m.2))

/-- The object has a member. -/
def Has (name : String) (v : Json) : Prop :=
  (name, v) ∈ f.members

/-- The object has a member whose value is a text. -/
def HasText (name text : String) : Prop :=
  f.Has name (.string (some text))

/-- The member of a name is a text or null, if there is one. -/
def MayHaveText (name : String) : Prop :=
  ∀ v, f.Has name v → v = .null ∨ ∃ text, v = .string (some text)

/-- The member of a name is a length or null, if there is one. -/
def MayHaveLength (name : String) : Prop :=
  ∀ v, f.Has name v → v = .null ∨ ∃ n ≤ 255, v = .natural n

/-- The known members of a block are of their types. -/
structure IsBlock : Prop where
  v4 : f.MayHaveText "v4prefix"
  v6 : f.MayHaveText "v6prefix"
  length : f.MayHaveLength "length"

/-- The prefix of a block, of which one of the shorter kind is preferred. -/
def HasPrefix (base : String) : Prop :=
  f.HasText "v4prefix" base ∨ (∀ text, ¬ f.HasText "v4prefix" text) ∧ f.HasText "v6prefix" base

/-- The text of a block that has a prefix and a length. -/
def HasBlockText (text : String) : Prop :=
  ∃ base n, f.HasPrefix base ∧ f.Has "length" (.natural n) ∧ text = s!"{base}/{n}"

end Fields

/-- The texts of those blocks that have one, in their order. -/
inductive BlockTexts : List Fields → List String → Prop
  | nil : BlockTexts [] []
  | complete {block : Fields} {blocks : List Fields} {text : String} {texts : List String} :
      block.HasBlockText text → BlockTexts blocks texts → BlockTexts (block :: blocks) (text :: texts)
  | incomplete {block : Fields} {blocks : List Fields} {texts : List String} :
      (∀ text, ¬ block.HasBlockText text) → BlockTexts blocks texts → BlockTexts (block :: blocks) texts

/-- The object of a response.  The entries of its list of blocks, if it has one, are such objects too. -/
structure Response extends Fields where
  plain : ∀ items, toFields.Has "cidr0_cidrs" (.array items) →
    ∀ item ∈ items, ∃ block : Fields, item = block.document

namespace Response

variable (response : Response)

/-- The known members of a response are of their types. -/
structure IsTyped : Prop where
  text : ∀ name ∈ ["handle", "name", "country", "startAddress", "endAddress"], response.MayHaveText name
  blocks : ∀ v, response.Has "cidr0_cidrs" v →
    ∃ blocks : List Fields, v = .array (blocks.map Fields.document) ∧ ∀ block ∈ blocks, block.IsBlock

/-- The blocks of a response: the entries of its list of blocks, or none without a list. -/
def HasBlocks (blocks : List Fields) : Prop :=
  response.Has "cidr0_cidrs" (.array (blocks.map Fields.document)) ∨
    (∀ v, ¬ response.Has "cidr0_cidrs" v) ∧ blocks = []

/-- What a response says of a network: the name or else the handle, the country if there is one, and the
blocks or else the first and last address. -/
structure Describes (r : Record) : Prop where
  description : response.HasText "name" r.description ∨
    (∀ text, ¬ response.HasText "name" text) ∧ response.HasText "handle" r.description
  country : response.HasText "country" r.country ∨
    (∀ text, ¬ response.HasText "country" text) ∧ r.country = ""
  cidr : ∃ blocks texts, response.HasBlocks blocks ∧ BlockTexts blocks texts ∧
    (texts ≠ [] → r.cidr = ", ".intercalate texts) ∧
      (texts = [] →
        (∀ first last, response.HasText "startAddress" first → response.HasText "endAddress" last →
          r.cidr = first ++ " - " ++ last) ∧
        (¬ (∃ first last, response.HasText "startAddress" first ∧ response.HasText "endAddress" last) →
          r.cidr = ""))

end Response

/-! ### Values of members -/

namespace Fields

variable (f : Fields)

/-- The value of the member of a name, if there is one. -/
def value (name : String) : Option Json :=
  valueAt (f.members.map fun m => (some m.1, m.2)) name

theorem count_name_le_one
    (name : String) :
    ((f.members.map fun m => (some m.1, m.2)).map Prod.fst).count (some name) ≤ 1 := by
  refine List.nodup_iff_count_le_one.mp ?_ (some name)
  simpa [Function.comp_def] using f.nodup.map fun _ _ => Option.some.inj

theorem value_eq_some_iff
    {name : String}
    {v : Json} :
    f.value name = some v ↔ f.Has name v := by
  simp [value, valueAt_eq_some_iff (f.count_name_le_one name), Has]

theorem value_eq_none_iff
    {name : String} :
    f.value name = none ↔ ∀ v, ¬ f.Has name v := by
  rw [Option.eq_none_iff_forall_not_mem]
  exact forall_congr' fun v => not_congr f.value_eq_some_iff

/-- An object without repeated members can be read by any names. -/
theorem accessible
    (known : List String) :
    Accessible known (f.members.map fun m => (some m.1, m.2)) :=
  ⟨by simp, fun name _ => f.count_name_le_one name⟩

end Fields

/-! ### Types -/

theorem text?_eq_some_some_iff
    {o : Option Json}
    {text : String} :
    text? o = some (some text) ↔ o = some (.string (some text)) := by
  unfold text?
  split <;> simp_all

theorem text?_eq_none_iff
    {o : Option Json} :
    text? o = none ↔ ¬ ∀ v, o = some v → v = .null ∨ ∃ text, v = .string (some text) := by
  unfold text?
  split <;> simp_all

theorem length?_eq_some_some_iff
    {o : Option Json}
    {n : Nat} :
    length? o = some (some n) ↔ o = some (.natural n) ∧ n ≤ 255 := by
  unfold length?
  split
  · simp
  · simp
  · next m =>
      simp only [Option.some.injEq, Json.natural.injEq]
      split
      · next hm =>
          simp only [Option.some.injEq, iff_self_and]
          rintro rfl
          exact hm
      · next hm => exact iff_of_false nofun fun ⟨hsame, hn⟩ => hm (hsame ▸ hn)
  · simp_all

theorem length?_eq_none_iff
    {o : Option Json} :
    length? o = none ↔ ¬ ∀ v, o = some v → v = .null ∨ ∃ n ≤ 255, v = .natural n := by
  unfold length?
  split <;> simp_all

namespace Fields

variable {f : Fields}

theorem text?_value_eq_none_iff
    {name : String} :
    text? (f.value name) = none ↔ ¬ f.MayHaveText name := by
  simp only [text?_eq_none_iff, value_eq_some_iff, MayHaveText]

/-- A member that may be a text is read as the text that it has. -/
theorem text_of_text?
    {name : String}
    {o : Option String}
    (h : text? (f.value name) = some o) :
    f.MayHaveText name ∧ ∀ text, o = some text ↔ f.HasText name text := by
  refine ⟨by_contra fun hnot => ?_, fun text => ?_⟩
  · rw [text?_value_eq_none_iff.mpr hnot] at h
    cases h
  · rw [← Option.some.injEq, ← h, text?_eq_some_some_iff, value_eq_some_iff, HasText]

theorem MayHaveText.exists_text
    {name : String}
    (h : f.MayHaveText name) :
    ∃ o, text? (f.value name) = some o :=
  Option.ne_none_iff_exists'.mp fun hnone => text?_value_eq_none_iff.mp hnone h

theorem length?_value_eq_none_iff
    {name : String} :
    length? (f.value name) = none ↔ ¬ f.MayHaveLength name := by
  simp only [length?_eq_none_iff, value_eq_some_iff, MayHaveLength]

/-- A member that may be a length is read as the length that it has. -/
theorem length_of_length?
    {name : String}
    {o : Option Nat}
    (h : length? (f.value name) = some o) :
    f.MayHaveLength name ∧ ∀ n, o = some n ↔ f.Has name (.natural n) := by
  have hmay : f.MayHaveLength name := by_contra fun hnot => by
    rw [length?_value_eq_none_iff.mpr hnot] at h
    cases h
  refine ⟨hmay, fun n => ?_⟩
  rw [← Option.some.injEq, ← h, length?_eq_some_some_iff, value_eq_some_iff]
  refine and_iff_left_of_imp fun hhas => ?_
  obtain hnull | ⟨m, hm, hsame⟩ := hmay _ hhas
  · cases hnull
  · obtain rfl := Json.natural.inj hsame
    exact hm

theorem MayHaveLength.exists_length
    {name : String}
    (h : f.MayHaveLength name) :
    ∃ o, length? (f.value name) = some o :=
  Option.ne_none_iff_exists'.mp fun hnone => length?_value_eq_none_iff.mp hnone h

/-! ### Blocks -/

theorem range?_document
    (f : Fields) :
    range? f.document = rangeOf (f.value "v4prefix") (f.value "v6prefix") (f.value "length") :=
  range?_object (f.accessible blockMembers)

/-- A block that is read is of the right types, and its text is told by its members. -/
theorem block_of_range?
    {r : Range}
    (h : range? f.document = some r) :
    f.IsBlock ∧ ∀ text, r.text? = some text ↔ f.HasBlockText text := by
  simp only [range?_document, rangeOf, Option.bind_eq_bind, Option.bind_eq_some_iff, Option.pure_def,
    Option.some.injEq] at h
  obtain ⟨v4, hv4, v6, hv6, length, hlength, rfl⟩ := h
  obtain ⟨hv4, htext4⟩ := text_of_text? hv4
  obtain ⟨hv6, htext6⟩ := text_of_text? hv6
  obtain ⟨hlength, hn⟩ := length_of_length? hlength
  refine ⟨⟨hv4, hv6, hlength⟩, fun text => ?_⟩
  have hchosen : ∀ base, v4.or v6 = some base ↔ f.HasPrefix base := fun base => by
    simp only [HasPrefix, Option.or_eq_some_iff, ← htext4, ← htext6, Option.eq_none_iff_forall_ne_some]
  constructor
  · intro htext
    rw [Range.text?] at htext
    split at htext
    · next base n hbase hlength' =>
        exact ⟨base, n, (hchosen base).mp hbase, (hn n).mp hlength', (Option.some.inj htext).symm⟩
    · cases htext
  · rintro ⟨base, n, hbase, hlength', rfl⟩
    simp only [Range.text?, (hchosen base).mpr hbase, (hn n).mpr hlength']

/-- A block of the right types is read. -/
theorem IsBlock.exists_range
    (h : f.IsBlock) :
    ∃ r, range? f.document = some r := by
  obtain ⟨v4, hv4⟩ := h.v4.exists_text
  obtain ⟨v6, hv6⟩ := h.v6.exists_text
  obtain ⟨length, hlength⟩ := h.length.exists_length
  exact ⟨⟨v4, v6, length⟩, by simp [range?_document, rangeOf, hv4, hv6, hlength]⟩

end Fields

theorem blocks_of_mapM
    {blocks : List Fields}
    {ranges : List Range}
    (h : (blocks.map Fields.document).mapM range? = some ranges) :
    (∀ block ∈ blocks, block.IsBlock) ∧ BlockTexts blocks (ranges.filterMap Range.text?) := by
  induction blocks generalizing ranges with
  | nil =>
      obtain rfl : [] = ranges := by simpa using h
      exact ⟨by simp, .nil⟩
  | cons block blocks ih =>
      simp only [List.map_cons, List.mapM_cons, Option.bind_eq_bind, Option.bind_eq_some_iff,
        Option.pure_def, Option.some.injEq] at h
      obtain ⟨r, hr, ranges, hranges, rfl⟩ := h
      obtain ⟨hblocks, htexts⟩ := ih hranges
      obtain ⟨hblock, htext⟩ := Fields.block_of_range? hr
      refine ⟨List.forall_mem_cons.mpr ⟨hblock, hblocks⟩, ?_⟩
      cases hcase : r.text? with
      | none =>
          rw [List.filterMap_cons_none hcase]
          refine .incomplete (fun text hhas => ?_) htexts
          rw [(htext text).mpr hhas] at hcase
          cases hcase
      | some text =>
          rw [List.filterMap_cons_some hcase]
          exact .complete ((htext text).mp hcase) htexts

theorem exists_mapM
    {blocks : List Fields}
    (h : ∀ block ∈ blocks, block.IsBlock) :
    ∃ ranges, (blocks.map Fields.document).mapM range? = some ranges := by
  induction blocks with
  | nil => exact ⟨[], rfl⟩
  | cons block blocks ih =>
      obtain ⟨hblock, hblocks⟩ := List.forall_mem_cons.mp h
      obtain ⟨r, hr⟩ := hblock.exists_range
      obtain ⟨ranges, hranges⟩ := ih hblocks
      exact ⟨r :: ranges, by simp [hr, hranges]⟩

namespace Response

variable {response : Response}

/-! ### Networks -/

/-- The entries of the list of blocks are objects without repeated members. -/
theorem exists_blocks
    {items : List Json}
    (h : response.Has "cidr0_cidrs" (.array items)) :
    ∃ blocks : List Fields, items = blocks.map Fields.document := by
  have hplain := response.plain items h
  clear h
  induction items with
  | nil => exact ⟨[], rfl⟩
  | cons item items ih =>
      obtain ⟨⟨block, rfl⟩, hitems⟩ := List.forall_mem_cons.mp hplain
      obtain ⟨blocks, rfl⟩ := ih hitems
      exact ⟨block :: blocks, rfl⟩

theorem blocks_of_ranges?
    {ranges : List Range}
    (h : ranges? (response.value "cidr0_cidrs") = some ranges) :
    (∀ v, response.Has "cidr0_cidrs" v →
        ∃ blocks : List Fields, v = .array (blocks.map Fields.document) ∧ ∀ block ∈ blocks, block.IsBlock) ∧
      ∃ blocks, response.HasBlocks blocks ∧ BlockTexts blocks (ranges.filterMap Range.text?) := by
  cases hvalue : response.value "cidr0_cidrs" with
  | none =>
      rw [hvalue] at h
      obtain rfl := Option.some.inj h
      have hnone := response.value_eq_none_iff.mp hvalue
      exact ⟨fun v hv => absurd hv (hnone v), [], .inr ⟨hnone, rfl⟩, .nil⟩
  | some v =>
      have hhas := response.value_eq_some_iff.mp hvalue
      rw [hvalue] at h
      match v with
      | .array items =>
          obtain ⟨blocks, rfl⟩ := exists_blocks hhas
          obtain ⟨hblocks, htexts⟩ := blocks_of_mapM h
          refine ⟨fun w hw => ⟨blocks, ?_, hblocks⟩, blocks, .inl hhas, htexts⟩
          rw [← response.value_eq_some_iff, hvalue, Option.some.injEq] at hw
          exact hw.symm

theorem IsTyped.exists_ranges
    (h : response.IsTyped) :
    ∃ ranges, ranges? (response.value "cidr0_cidrs") = some ranges := by
  cases hvalue : response.value "cidr0_cidrs" with
  | none => exact ⟨[], rfl⟩
  | some v =>
      obtain ⟨blocks, rfl, hblocks⟩ := h.blocks v (response.value_eq_some_iff.mp hvalue)
      exact exists_mapM hblocks

theorem network?_document
    (response : Response) :
    network? response.document =
      networkOf (response.value "handle") (response.value "name") (response.value "country")
        (response.value "startAddress") (response.value "endAddress") (response.value "cidr0_cidrs") :=
  network?_object (response.accessible knownMembers)

/-- A network that is read has what the members of the response tell. -/
structure Tells (response : Response) (n : Network) : Prop where
  handle : ∀ text, n.handle = some text ↔ response.HasText "handle" text
  name : ∀ text, n.name = some text ↔ response.HasText "name" text
  country : ∀ text, n.country = some text ↔ response.HasText "country" text
  first : ∀ text, n.first = some text ↔ response.HasText "startAddress" text
  last : ∀ text, n.last = some text ↔ response.HasText "endAddress" text
  blocks : ∃ blocks, response.HasBlocks blocks ∧ BlockTexts blocks (n.ranges.filterMap Range.text?)

theorem tells_of_network?
    {n : Network}
    (h : network? response.document = some n) :
    response.IsTyped ∧ response.Tells n := by
  simp only [network?_document, networkOf, Option.bind_eq_bind, Option.bind_eq_some_iff, Option.pure_def,
    Option.some.injEq] at h
  obtain ⟨handle, hhandle, name, hname, country, hcountry, first, hfirst, last, hlast, ranges, hranges, rfl⟩ := h
  obtain ⟨hblocks, htexts⟩ := blocks_of_ranges? hranges
  have hhandle := Fields.text_of_text? hhandle
  have hname := Fields.text_of_text? hname
  have hcountry := Fields.text_of_text? hcountry
  have hfirst := Fields.text_of_text? hfirst
  have hlast := Fields.text_of_text? hlast
  refine ⟨⟨?_, hblocks⟩, hhandle.2, hname.2, hcountry.2, hfirst.2, hlast.2, htexts⟩
  simp only [List.forall_mem_cons, List.not_mem_nil, false_imp_iff, implies_true, and_true]
  exact ⟨hhandle.1, hname.1, hcountry.1, hfirst.1, hlast.1⟩

theorem IsTyped.exists_network
    (h : response.IsTyped) :
    ∃ n, network? response.document = some n := by
  obtain ⟨handle, hhandle⟩ := (h.text "handle" (by decide)).exists_text
  obtain ⟨name, hname⟩ := (h.text "name" (by decide)).exists_text
  obtain ⟨country, hcountry⟩ := (h.text "country" (by decide)).exists_text
  obtain ⟨first, hfirst⟩ := (h.text "startAddress" (by decide)).exists_text
  obtain ⟨last, hlast⟩ := (h.text "endAddress" (by decide)).exists_text
  obtain ⟨ranges, hranges⟩ := h.exists_ranges
  exact ⟨⟨handle, name, country, first, last, ranges⟩,
    by simp [network?_document, networkOf, hhandle, hname, hcountry, hfirst, hlast, hranges]⟩

/-! ### Records -/

theorem Tells.describes
    {n : Network}
    (h : response.Tells n)
    {r : Record}
    (hr : n.record = .ok r) :
    response.Describes r := by
  have hdescription : n.name.or n.handle = some r.description ∧ r.country = n.country.getD "" ∧
      r.cidr = n.extent := by
    rw [Network.record] at hr
    split at hr
    · cases hr
    · next hname =>
        obtain rfl := Except.ok.inj hr
        exact ⟨hname, rfl, rfl⟩
  obtain ⟨hname, hcountry, hcidr⟩ := hdescription
  refine ⟨?_, ?_, ?_⟩
  · simpa only [Option.or_eq_some_iff, h.name, h.handle, Option.eq_none_iff_forall_ne_some, ne_eq] using hname
  · rw [hcountry]
    cases hcase : n.country with
    | none =>
        refine .inr ⟨fun text htext => ?_, rfl⟩
        rw [(h.country text).mpr htext] at hcase
        cases hcase
    | some text => exact .inl ((h.country text).mp hcase)
  · obtain ⟨blocks, hblocks, htexts⟩ := h.blocks
    refine ⟨blocks, _, hblocks, htexts, fun hne => ?_,
      fun hnil => ⟨fun first last hfirst hlast => ?_, fun hnot => ?_⟩⟩
    · rw [hcidr, Network.extent]
      split
      · next hnil _ _ => exact absurd hnil hne
      · rfl
    · rw [hcidr, Network.extent, hnil, (h.first first).mpr hfirst, (h.last last).mpr hlast]
    · rw [hcidr, Network.extent, hnil]
      split
      · next first last _ hfirst hlast =>
          exact absurd ⟨first, last, (h.first first).mp hfirst, (h.last last).mp hlast⟩ hnot
      · next blocks _ _ _ => rfl

theorem Tells.record_isOk_iff
    {n : Network}
    (h : response.Tells n) :
    (∃ r, n.record = .ok r) ↔ ∃ text, response.HasText "name" text ∨ response.HasText "handle" text := by
  constructor
  · rintro ⟨r, hr⟩
    obtain hname | ⟨_, hhandle⟩ := (h.describes hr).description
    · exact ⟨_, .inl hname⟩
    · exact ⟨_, .inr hhandle⟩
  · rintro ⟨text, htext⟩
    have hsome : n.name.or n.handle ≠ none := by
      rw [Ne, Option.or_eq_none_iff]
      rintro ⟨hname, hhandle⟩
      rcases htext with htext | htext
      · rw [(h.name text).mpr htext] at hname
        cases hname
      · rw [(h.handle text).mpr htext] at hhandle
        cases hhandle
    obtain ⟨description, hdescription⟩ := Option.ne_none_iff_exists'.mp hsome
    exact ⟨_, by rw [Network.record, hdescription]⟩

/-- A text of a document gives the record of its network. -/
theorem recordOf_of_denotes
    {j : Json}
    {body : String}
    (h : j.Denotes body.toList) :
    recordOf body =
      match network? j with
      | none => .error .malformed
      | some n => n.record := by
  rw [recordOf, Json.ofText?_eq_some_iff.mpr h]
  rfl

/-- A response is read by its members.  It gives a record exactly if its known members are of their types
and it has a name or a handle; the record is what the members say; and no other order of the members, no
further unknown members at any depth and no other way to write the document changes the result. -/
theorem recordOf_told_by_members
    (response : Response)
    (body : String)
    (hbody : Json.Denotes response.document body.toList) :
    ((∃ r, recordOf body = .ok r) ↔
        response.IsTyped ∧ ∃ text, response.HasText "name" text ∨ response.HasText "handle" text) ∧
      (∀ r, recordOf body = .ok r → response.Describes r) ∧
        ∀ j body', Edited .network response.document j → Json.Denotes j body'.toList →
          recordOf body' = recordOf body := by
  refine ⟨?_, ?_, fun j body' hedited hbody' => ?_⟩
  · rw [recordOf_of_denotes hbody]
    cases hread : network? response.document with
    | none =>
        refine iff_of_false nofun fun ⟨htyped, _⟩ => ?_
        obtain ⟨n, hn⟩ := htyped.exists_network
        rw [hread] at hn
        cases hn
    | some n =>
        obtain ⟨htyped, htells⟩ := tells_of_network? hread
        simpa [htyped] using htells.record_isOk_iff
  · intro r hr
    rw [recordOf_of_denotes hbody] at hr
    cases hread : network? response.document with
    | none =>
        rw [hread] at hr
        cases hr
    | some n =>
        rw [hread] at hr
        exact (tells_of_network? hread).2.describes hr
  · have hread : network? response.document = network? j := hedited.agrees
    rw [recordOf_of_denotes hbody, recordOf_of_denotes hbody', hread]

/-- A response without a name, of whose two blocks one has no length. -/
def handleOnly : Response where
  members := [("handle", .string (some "NET-1")), ("name", .null),
    ("cidr0_cidrs", .array [.object [(some "v4prefix", .string (some "192.0.2.0")), (some "length", .natural 24)],
      .object [(some "v6prefix", .string (some "2001:db8::"))]])]
  nodup := by decide
  plain := by
    intro items hitems
    simp only [Fields.Has, List.mem_cons, Prod.mk.injEq, Json.array.injEq, List.not_mem_nil, or_false] at hitems
    obtain ⟨h, _⟩ | ⟨h, _⟩ | ⟨_, rfl⟩ := hitems
    · exact absurd h (by decide)
    · exact absurd h (by decide)
    · simp only [List.forall_mem_cons, List.not_mem_nil, false_imp_iff, implies_true, and_true]
      exact ⟨⟨⟨[("v4prefix", .string (some "192.0.2.0")), ("length", .natural 24)], by decide⟩, rfl⟩,
        ⟨⟨[("v6prefix", .string (some "2001:db8::"))], by decide⟩, rfl⟩⟩

/-- The same response as one registry writes it, and as another one does that knows more. -/
def handleOnlyText : String :=
  "\x7b\"handle\": \"NET-1\", \"name\": null, \"cidr0_cidrs\": " ++
    "[\x7b\"v4prefix\": \"192.0.2.0\", \"length\": 24\x7d, \x7b\"v6prefix\": \"2001:db8::\"\x7d]\x7d"

def handleOnlyExtended : String :=
  "\x7b\"events\":[],\"name\":null,\"handle\":\"N\\u0045T-1\",\"cidr0_cidrs\":" ++
    "[\x7b\"length\":24,\"v4prefix\":\"192.0.2.0\"\x7d,\x7b\"v6prefix\":\"2001:db8::\"\x7d]\x7d"

theorem handleOnly_read_however_written :
    recordOf handleOnlyText = .ok { cidr := "192.0.2.0/24", country := "", description := "NET-1" } ∧
      (handleOnly.IsTyped ∧ ∃ text, handleOnly.HasText "name" text ∨ handleOnly.HasText "handle" text) ∧
        handleOnly.Describes { cidr := "192.0.2.0/24", country := "", description := "NET-1" } ∧
          recordOf handleOnlyExtended = recordOf handleOnlyText := by
  have hdenotes : Json.Denotes handleOnly.document handleOnlyText.toList :=
    Json.ofText?_eq_some_iff.mp (by cbv)
  have hread : recordOf handleOnlyText =
      .ok { cidr := "192.0.2.0/24", country := "", description := "NET-1" } := by
    rw [recordOf_of_denotes hdenotes]
    rfl
  obtain ⟨hiff, hdescribes, hsame⟩ := recordOf_told_by_members handleOnly handleOnlyText hdenotes
  -- within the first block the members change places, then a member is added and two change places
  have hblock : Edited .network handleOnly.document
      (.object [(some "handle", .string (some "NET-1")), (some "name", .null), (some "cidr0_cidrs", .array
        [.object [(some "length", .natural 24), (some "v4prefix", .string (some "192.0.2.0"))],
          .object [(some "v6prefix", .string (some "2001:db8::"))]])]) :=
    @Edited.member .network [(some "handle", .string (some "NET-1")), (some "name", .null)] [] (some "cidr0_cidrs")
      _ _ (@Edited.block [] _ _ _ (.reorder (.swap ..)))
  have hedited := (hblock.trans (.add (.array []) (show "events" ∉ knownMembers by decide))).trans
    (.reorder (.cons _ (.swap ..)))
  exact ⟨hread, hiff.mp ⟨_, hread⟩, hdescribes _ hread,
    hsame _ handleOnlyExtended hedited (Json.ofText?_eq_some_iff.mp (by cbv))⟩

end Response

end Registry
end AccessAudit
