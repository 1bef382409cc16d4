import AccessAudit.CommandLine.Options
import AccessAudit.Proofs.CommandLine.Spelling
import AccessAudit.Proofs.CommandLine.Variables

/-!
# Options as they are told

The options of a run are those that the line gives, in whatever order and spelling, those that the environment
has for what the line does not give, and those that go without saying.
-/

namespace AccessAudit
namespace CommandLine

variable {environment : List (String × String)} {items items' : List Item}

/-- The value of an option: the one that its text in the line denotes, or else the one that the text of its
variable denotes, or else the one that goes without saying. -/
inductive Takes (environment : List (String × String)) (items : List Item) (k : Key) {α : Type}
    (read : String → Option α) (standard : α) : α → Prop
  | given {text : String} {a : α} :
      textsOf k items = [text] → read text = some a → Takes environment items k read standard a
  | inherited {text : String} {a : α} :
      textsOf k items = [] → standInText? environment k = some text → read text = some a →
      Takes environment items k read standard a
  | standard :
      textsOf k items = [] → standInText? environment k = none →
      Takes environment items k read standard standard

/-- An option that is given once at most takes its value from what is given. -/
theorem takes_iff
    (h : Acceptable environment items)
    {k : Key}
    (hk : k.isCollected = false)
    {α : Type}
    {read : String → Option α}
    (hread : ∀ text, k.fault? text = none → ∃ a, read text = some a)
    {standard a : α} :
    Takes environment items k read standard a ↔
      a = (((givenBy environment items).value? k).bind read).getD standard := by
  rw [Given.value?, valuesOf_givenBy]
  constructor
  · rintro (⟨htext, ha⟩ | ⟨hnone, htext, ha⟩ | ⟨hnone, htext⟩)
    · simp [htext, ha]
    · simp [hnone, htext, ha]
    · simp [hnone, htext]
  · rintro rfl
    cases htexts : textsOf k items with
    | nil =>
        cases htext : standInText? environment k with
        | none => simpa using .standard htexts htext
        | some text =>
            obtain ⟨a, ha⟩ := hread text (h.standIns k text htexts htext)
            simpa [ha] using .inherited htexts htext ha
    | cons text rest =>
        have hlength := h.keys k hk
        rw [htexts, List.length_cons] at hlength
        obtain rfl : rest = [] := List.length_eq_zero_iff.mp (by omega)
        obtain ⟨a, ha⟩ := hread text (h.texts k text (by rw [htexts]; exact List.mem_cons_self))
        simpa [ha] using .given htexts ha

/-- An option whose value is the text itself. -/
theorem takes_some_iff
    (h : Acceptable environment items)
    {k : Key}
    (hk : k.isCollected = false)
    {standard a : String} :
    Takes environment items k some standard a ↔ a = ((givenBy environment items).value? k).getD standard := by
  rw [takes_iff h hk fun text _ => ⟨text, rfl⟩, Option.bind_fun_some]

/-- An option that has no value unless it is given. -/
theorem takes_none_iff
    (h : Acceptable environment items)
    {k : Key}
    (hk : k.isCollected = false)
    {a : Option String} :
    Takes environment items k (fun text => some (some text)) none a ↔
      a = (givenBy environment items).value? k := by
  rw [takes_iff h hk fun text _ => ⟨some text, rfl⟩]
  cases (givenBy environment items).value? k <;> rfl

/-- A text without a fault is read, where a text that is not read has a fault. -/
theorem exists_value
    {k : Key}
    {α : Type}
    {read : String → Option α}
    (hk : ∀ text, k.fault? text = if (read text).isSome then none else some .unreadable)
    (text : String)
    (h : k.fault? text = none) :
    ∃ a, read text = some a := by
  rw [← Option.isSome_iff_exists]
  by_contra hnone
  rw [hk, if_neg hnone] at h
  cases h

theorem Takes.of_textsOf_eq
    {k : Key}
    (htexts : textsOf k items = textsOf k items')
    {α : Type}
    {read : String → Option α}
    {standard a : α}
    (h : Takes environment items k read standard a) :
    Takes environment items' k read standard a := by
  rcases h with ⟨htext, ha⟩ | ⟨hnone, htext, ha⟩ | ⟨hnone, htext⟩
  · exact .given (htexts ▸ htext) ha
  · exact .inherited (htexts ▸ hnone) htext ha
  · exact .standard (htexts ▸ hnone) htext

end CommandLine

namespace Options

open CommandLine

variable {environment : List (String × String)} {items items' : List Item} {o : Options}

/-- Options have the values that a line and an environment give them, and otherwise those that go without
saying.  Flags are counted up to 255 or there or not; recipients and local networks are those of the line in
order, and local networks take the place of all that go without saying. -/
structure IsToldBy (environment : List (String × String)) (items : List Item) (o : Options) : Prop where
  verbose : o.verbose = min 255 (items.count (.flag .verbose))
  quiet : o.quiet = min 255 (items.count (.flag .quiet))
  production : o.production = true ↔ .flag .production ∈ items
  skipMaintenance : o.skipMaintenance = true ↔ .flag .skipMaintenance ∈ items
  skipReports : o.skipReports = true ↔ .flag .skipReports ∈ items
  withoutLookup : o.withoutLookup = true ↔ .flag .withoutLookup ∈ items
  create : o.create = true ↔ .flag .create ∈ items
  recipients : o.recipients = textsOf .recipient items
  localNetworks :
    o.localNetworks =
      if textsOf .localNetwork items = [] then Block.defaultLocalTexts else textsOf .localNetwork items
  purgeDays : Takes environment items .purgeDays days? 10 o.purgeDays
  topN : Takes environment items .topN rows? 20 o.topN
  threshold :
    Takes environment items .threshold (fun text => Double.ofText? text.toList) (Double.ofDecimal false 5 (-2))
      o.threshold
  database : Takes environment items .database some "/var/lib/iptracking/iptracking.db" o.database
  directoryUri : Takes environment items .directoryUri (fun text => some (some text)) none o.directoryUri
  directoryBase : Takes environment items .directoryBase (fun text => some (some text)) none o.directoryBase
  directoryFilter : Takes environment items .directoryFilter some Directory.defaultFilter o.directoryFilter
  registryUrl : Takes environment items .registryUrl some Registry.defaultBase o.registryUrl
  sender : Takes environment items .sender some "root@localhost" o.postage.sender
  host : Takes environment items .relayHost some "localhost" o.postage.host
  tag : Takes environment items .tag some "iptracking" o.postage.tag

theorem contains_flags_iff
    {f : Flag} :
    (givenBy environment items).flags.contains f = true ↔ .flag f ∈ items := by
  rw [List.contains_iff_mem, mem_flags_givenBy]

theorem countOf_givenBy
    (environment : List (String × String))
    (items : List Item)
    (f : Flag) :
    countOf (givenBy environment items) f = min 255 (items.count (.flag f)) := by
  rw [countOf, count_flags_givenBy, maxCount]

/-- A key that no variable stands in for has the texts of the line. -/
theorem valuesOf_of_standIn?_eq_none
    {k : Key}
    (h : k.standIn? = none) :
    (givenBy environment items).valuesOf k = textsOf k items := by
  have hnone : standInText? environment k = none := by rw [standInText?, h, Option.bind_none]
  rw [valuesOf_givenBy, hnone]
  split
  · next htexts => exact htexts.symm
  · rfl

theorem localNetworks_ofGiven
    (environment : List (String × String))
    (items : List Item) :
    (ofGiven (givenBy environment items)).localNetworks =
      if textsOf .localNetwork items = [] then Block.defaultLocalTexts else textsOf .localNetwork items := by
  have hvalues : (givenBy environment items).valuesOf .localNetwork = textsOf .localNetwork items :=
    valuesOf_of_standIn?_eq_none rfl
  change (if (givenBy environment items).has .localNetwork then
    (givenBy environment items).valuesOf .localNetwork else Block.defaultLocalTexts) = _
  rw [hvalues]
  cases hhas : (givenBy environment items).has .localNetwork with
  | false =>
      rw [Given.has_eq_false_iff, hvalues] at hhas
      simp [hhas]
  | true =>
      have hsome : textsOf .localNetwork items ≠ [] := by
        rw [← hvalues, ne_eq, ← Given.has_eq_false_iff, hhas]
        nofun
      rw [if_pos rfl, if_neg hsome]

/-- The options that a line and an environment tell are the ones that are read from what is given. -/
theorem isToldBy_iff
    (h : Acceptable environment items) :
    o.IsToldBy environment items ↔ o = ofGiven (givenBy environment items) := by
  constructor
  · intro ht
    have hflag {b : Bool} {f : Flag} (hb : b = true ↔ .flag f ∈ items) :
        b = (givenBy environment items).flags.contains f :=
      Bool.eq_iff_iff.mpr (hb.trans contains_flags_iff.symm)
    obtain ⟨hverbose, hquiet, hproduction, hmaintenance, hreports, hlookup, hcreate, hrecipients, hnetworks,
      hdays, hrows, hthreshold, hdatabase, huri, hbase, hfilter, hurl, hsender, hhost, htag⟩ := ht
    rcases o with ⟨⟩
    rename_i postage _
    rcases postage with ⟨⟩
    rw [ofGiven, mk.injEq, Mail.Postage.mk.injEq]
    exact ⟨hverbose.trans (countOf_givenBy _ _ _).symm, hquiet.trans (countOf_givenBy _ _ _).symm,
      hflag hproduction, hflag hmaintenance, hflag hreports,
      (takes_iff h rfl (exists_value fun _ => rfl)).mp hdays,
      (takes_iff h rfl (exists_value fun _ => rfl)).mp hrows,
      (takes_iff h rfl (exists_value fun _ => rfl)).mp hthreshold,
      hrecipients.trans (valuesOf_of_standIn?_eq_none rfl).symm, (takes_some_iff h rfl).mp hdatabase,
      hnetworks.trans (localNetworks_ofGiven _ _).symm, (takes_none_iff h rfl).mp huri,
      (takes_none_iff h rfl).mp hbase, (takes_some_iff h rfl).mp hfilter, (takes_some_iff h rfl).mp hurl,
      hflag hlookup,
      ⟨(takes_some_iff h rfl).mp hsender, (takes_some_iff h rfl).mp hhost, (takes_some_iff h rfl).mp htag⟩,
      hflag hcreate⟩
  · rintro rfl
    exact
      { verbose := countOf_givenBy environment items .verbose
        quiet := countOf_givenBy environment items .quiet
        production := contains_flags_iff
        skipMaintenance := contains_flags_iff
        skipReports := contains_flags_iff
        withoutLookup := contains_flags_iff
        create := contains_flags_iff
        recipients := valuesOf_of_standIn?_eq_none rfl
        localNetworks := localNetworks_ofGiven environment items
        purgeDays := (takes_iff h rfl (exists_value fun _ => rfl)).mpr rfl
        topN := (takes_iff h rfl (exists_value fun _ => rfl)).mpr rfl
        threshold := (takes_iff h rfl (exists_value fun _ => rfl)).mpr rfl
        database := (takes_some_iff h rfl).mpr rfl
        directoryUri := (takes_none_iff h rfl).mpr rfl
        directoryBase := (takes_none_iff h rfl).mpr rfl
        directoryFilter := (takes_some_iff h rfl).mpr rfl
        registryUrl := (takes_some_iff h rfl).mpr rfl
        sender := (takes_some_iff h rfl).mpr rfl
        host := (takes_some_iff h rfl).mpr rfl
        tag := (takes_some_iff h rfl).mpr rfl }

/-! ### Other orders -/

/-- The same items in another order, which is not another order of recipients or of local networks. -/
structure Reordered (items items' : List Item) : Prop where
  perm : items.Perm items'
  recipients : textsOf .recipient items = textsOf .recipient items'
  localNetworks : textsOf .localNetwork items = textsOf .localNetwork items'

theorem Reordered.symm
    (h : Reordered items items') :
    Reordered items' items :=
  ⟨h.perm.symm, h.recipients.symm, h.localNetworks.symm⟩

theorem Reordered.perm_textsOf
    (h : Reordered items items')
    (k : Key) :
    (textsOf k items).Perm (textsOf k items') :=
  h.perm.filterMap _

/-- What is acceptable in one order is acceptable in the other. -/
theorem Reordered.acceptable
    (h : Reordered items items')
    (hacceptable : Acceptable environment items) :
    Acceptable environment items' where
  flags f hf := by
    rw [← h.perm.count_eq]
    exact hacceptable.flags f hf
  help := h.perm.mem_iff.not.mp hacceptable.help
  version := h.perm.mem_iff.not.mp hacceptable.version
  keys k hk := by
    rw [← (h.perm_textsOf k).length_eq]
    exact hacceptable.keys k hk
  texts k text htext := hacceptable.texts k text ((h.perm_textsOf k).mem_iff.mpr htext)
  standIns k text hnone := by
    refine hacceptable.standIns k text (List.Perm.eq_nil ?_)
    rw [← hnone]
    exact h.perm_textsOf k

/-- A key that is given once at most has the same text in both orders. -/
theorem Reordered.textsOf_eq
    (h : Reordered items items')
    (hacceptable : Acceptable environment items)
    {k : Key}
    (hk : k.isCollected = false) :
    textsOf k items = textsOf k items' := by
  have hlength := hacceptable.keys k hk
  have hperm := h.perm_textsOf k
  generalize textsOf k items = texts at *
  cases texts with
  | nil => exact hperm.nil_eq
  | cons text rest =>
      rw [List.length_cons] at hlength
      obtain rfl : rest = [] := List.length_eq_zero_iff.mp (by omega)
      exact (List.perm_singleton.mp hperm.symm).symm

/-- What is told in one order is told in the other. -/
theorem IsToldBy.of_reordered
    (ht : o.IsToldBy environment items)
    (h : Reordered items items')
    (hacceptable : Acceptable environment items) :
    o.IsToldBy environment items' where
  verbose := by
    rw [← h.perm.count_eq]
    exact ht.verbose
  quiet := by
    rw [← h.perm.count_eq]
    exact ht.quiet
  production := ht.production.trans h.perm.mem_iff
  skipMaintenance := ht.skipMaintenance.trans h.perm.mem_iff
  skipReports := ht.skipReports.trans h.perm.mem_iff
  withoutLookup := ht.withoutLookup.trans h.perm.mem_iff
  create := ht.create.trans h.perm.mem_iff
  recipients := ht.recipients.trans h.recipients
  localNetworks := by
    rw [← h.localNetworks]
    exact ht.localNetworks
  purgeDays := ht.purgeDays.of_textsOf_eq (h.textsOf_eq hacceptable rfl)
  topN := ht.topN.of_textsOf_eq (h.textsOf_eq hacceptable rfl)
  threshold := ht.threshold.of_textsOf_eq (h.textsOf_eq hacceptable rfl)
  database := ht.database.of_textsOf_eq (h.textsOf_eq hacceptable rfl)
  directoryUri := ht.directoryUri.of_textsOf_eq (h.textsOf_eq hacceptable rfl)
  directoryBase := ht.directoryBase.of_textsOf_eq (h.textsOf_eq hacceptable rfl)
  directoryFilter := ht.directoryFilter.of_textsOf_eq (h.textsOf_eq hacceptable rfl)
  registryUrl := ht.registryUrl.of_textsOf_eq (h.textsOf_eq hacceptable rfl)
  sender := ht.sender.of_textsOf_eq (h.textsOf_eq hacceptable rfl)
  host := ht.host.of_textsOf_eq (h.textsOf_eq hacceptable rfl)
  tag := ht.tag.of_textsOf_eq (h.textsOf_eq hacceptable rfl)

/-- A line is read if and only if it is acceptable, and then as the options that it tells. -/
theorem parse_eq_ok_iff
    {args : List String}
    (h : Spelled items args) :
    parse environment args = .ok o ↔ Acceptable environment items ∧ o.IsToldBy environment items := by
  constructor
  · intro hparse
    cases hread : readAll environment args with
    | error fault =>
        rw [parse, hread] at hparse
        cases hparse
    | ok g =>
        obtain ⟨hacceptable, rfl⟩ := (readAll_eq_ok_iff (read_of_spelled h)).mp hread
        rw [parse, hread] at hparse
        cases hparse
        exact ⟨hacceptable, (isToldBy_iff hacceptable).mpr rfl⟩
  · rintro ⟨hacceptable, htold⟩
    rw [parse, (readAll_eq_ok_iff (read_of_spelled h)).mpr ⟨hacceptable, rfl⟩,
      (isToldBy_iff hacceptable).mp htold]
    rfl

/-- **The order of a command line does not matter.**  The words of a line give flags, and keys with texts, by
names or by letters.  If they may be given together in the environment, then the line is read as the options
that they tell, and there are no other options that they tell; if not, then the line is refused.  Every other
order, in every other spelling, that keeps the order of the recipients and of the local networks is read as the
same options. -/
theorem parse_spelled
    (environment : List (String × String))
    {items : List Item}
    {args : List String}
    (h : Spelled items args) :
    (Acceptable environment items →
      ∃ o, parse environment args = .ok o ∧ o.IsToldBy environment items ∧
        ∀ other : Options, other.IsToldBy environment items → other = o) ∧
    (¬Acceptable environment items → ∃ fault, parse environment args = .error fault) ∧
    ∀ items' args', Spelled items' args' → Reordered items items' →
      ∀ o, parse environment args' = .ok o ↔ parse environment args = .ok o := by
  refine ⟨fun hacceptable => ?told, fun hunacceptable => ?refused, fun items' args' h' hreordered o => ?reordered⟩
  case told =>
    have htold := (isToldBy_iff hacceptable).mpr rfl
    refine ⟨_, (parse_eq_ok_iff h).mpr ⟨hacceptable, htold⟩, htold, fun other hother => ?_⟩
    exact (isToldBy_iff hacceptable).mp hother
  case refused =>
    cases hparse : parse environment args with
    | error fault => exact ⟨fault, rfl⟩
    | ok o => exact absurd ((parse_eq_ok_iff h).mp hparse).1 hunacceptable
  case reordered =>
    rw [parse_eq_ok_iff h, parse_eq_ok_iff h']
    constructor
    · rintro ⟨hacceptable, htold⟩
      exact ⟨hreordered.symm.acceptable hacceptable, htold.of_reordered hreordered.symm hacceptable⟩
    · rintro ⟨hacceptable, htold⟩
      exact ⟨hreordered.acceptable hacceptable, htold.of_reordered hreordered hacceptable⟩

/-- The items of a line. -/
def sampleItems : List Item :=
  [.flag .verbose, .flag .verbose, .value .recipient "ops@example.edu", .flag .production,
    .value .purgeDays "30", .value .recipient "sec@example.edu", .value .localNetwork "192.0.2.0/24",
    .value .database "/tmp/a.db"]

/-- The same items in another order. -/
def shuffledItems : List Item :=
  [.value .database "/tmp/a.db", .value .localNetwork "192.0.2.0/24", .flag .verbose,
    .value .recipient "ops@example.edu", .value .purgeDays "30", .flag .verbose,
    .value .recipient "sec@example.edu", .flag .production]

/-- An environment with one variable that the line overrides and one that it does not. -/
def sampleEnvironment : List (String × String) :=
  [("IPTRACKING_DB", "/tmp/b.db"), ("IPTRACKING_SMTP_HOST", "relay.example.edu")]

/-- The options that they tell. -/
def sampleOptions : Options :=
  { verbose := 2, production := true, purgeDays := 30, recipients := ["ops@example.edu", "sec@example.edu"],
    database := "/tmp/a.db", localNetworks := ["192.0.2.0/24"], postage := { host := "relay.example.edu" } }

theorem sampleItems_acceptable : Acceptable sampleEnvironment sampleItems where
  flags f _ := by cases f <;> first | decide | contradiction
  help := by decide
  version := by decide
  keys k _ := by cases k <;> first | decide | contradiction
  texts k := by cases k <;> decide +kernel
  standIns k text hnone htext := by
    cases k with
    | database => cases hnone
    | purgeDays => cases htext
    | topN => cases htext
    | threshold => cases htext
    | _ => rfl

theorem sampleOptions_told : sampleOptions.IsToldBy sampleEnvironment sampleItems where
  verbose := by decide
  quiet := by decide
  production := by decide
  skipMaintenance := by decide
  skipReports := by decide
  withoutLookup := by decide
  create := by decide
  recipients := by decide
  localNetworks := by decide
  purgeDays := .given (show _ = ["30"] from rfl) (by decide +kernel)
  topN := .standard rfl rfl
  threshold := .standard rfl rfl
  database := .given rfl rfl
  directoryUri := .standard rfl rfl
  directoryBase := .standard rfl rfl
  directoryFilter := .standard rfl rfl
  registryUrl := .standard rfl rfl
  sender := .standard rfl rfl
  host := .inherited rfl (by decide) rfl
  tag := .standard rfl rfl

/-- Letters and names in either order tell the same, and the line goes before the environment. -/
theorem shuffled_line_is_read_alike :
    parse sampleEnvironment
        ["-vv", "-e=ops@example.edu", "-np=30", "--email=sec@example.edu", "--local-net=192.0.2.0/24",
          "--database=/tmp/a.db"] = .ok sampleOptions ∧
    parse sampleEnvironment
        ["-d=/tmp/a.db", "--local-net=192.0.2.0/24", "-ve=ops@example.edu", "--purge-day-count=30", "--verbose",
          "-e=sec@example.edu", "--production-run"] = .ok sampleOptions := by
  have hletters {f : Flag} {c : Char} (h : f.letter? = some c) : AreLetters [f] [c] := .cons h .nil
  have hline : Spelled sampleItems
      ["-vv", "-e=ops@example.edu", "-np=30", "--email=sec@example.edu", "--local-net=192.0.2.0/24",
        "--database=/tmp/a.db"] :=
    .cons (.letters (f := .verbose) (c := 'v') (.cons rfl (hletters (f := .verbose) (c := 'v') rfl))) <|
    .cons (.keyLetter (k := .recipient) (c := 'e') "ops@example.edu" .nil rfl) <|
    .cons (.keyLetter (k := .purgeDays) (c := 'p') "30" (hletters (f := .production) (c := 'n') rfl) rfl) <|
    .cons (.keyName .recipient "sec@example.edu") <|
    .cons (.keyName .localNetwork "192.0.2.0/24") <|
    .cons (.keyName .database "/tmp/a.db") .nil
  have hshuffled : Spelled shuffledItems
      ["-d=/tmp/a.db", "--local-net=192.0.2.0/24", "-ve=ops@example.edu", "--purge-day-count=30", "--verbose",
        "-e=sec@example.edu", "--production-run"] :=
    .cons (.keyLetter (k := .database) (c := 'd') "/tmp/a.db" .nil rfl) <|
    .cons (.keyName .localNetwork "192.0.2.0/24") <|
    .cons (.keyLetter (k := .recipient) (c := 'e') "ops@example.edu"
      (hletters (f := .verbose) (c := 'v') rfl) rfl) <|
    .cons (.keyName .purgeDays "30") <|
    .cons (.flagName .verbose) <|
    .cons (.keyLetter (k := .recipient) (c := 'e') "sec@example.edu" .nil rfl) <|
    .cons (.flagName .production) .nil
  have hreordered : Reordered sampleItems shuffledItems := ⟨by decide, by decide, by decide⟩
  obtain ⟨htold, -, horder⟩ := parse_spelled sampleEnvironment hline
  obtain ⟨o, hparse, -, hunique⟩ := htold sampleItems_acceptable
  rw [hunique _ sampleOptions_told]
  exact ⟨hparse, (horder _ _ hshuffled hreordered o).mpr hparse⟩

end Options
end AccessAudit
