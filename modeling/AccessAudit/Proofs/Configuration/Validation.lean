import AccessAudit.CommandLine.Options
import AccessAudit.Proofs.Configuration.Threshold
import AccessAudit.Proofs.Mail.Message

/-!
# Options that make a configuration

Options make a configuration if and only if they meet six conditions, and otherwise the first condition in order
that they do not meet is reported.  The condition on the threshold is held up to a tolerance: away from the ends
of the range it is the one that is announced.
-/

namespace AccessAudit

/-- A text that denotes a network. -/
def Block.IsDenotedBy (text : String) : Prop :=
  ∃ b, Block.ofText text = .ok b

namespace Options

variable {inRange : Double → Prop} {o : Options}

/-! ### Conditions -/

/-- The networks and the recipients of options can be read. -/
structure Readable (o : Options) : Prop where
  networks : ∀ text ∈ o.localNetworks, Block.IsDenotedBy text
  recipients : ∀ text ∈ o.recipients, Mail.IsMailbox text

/-- There is something to be done. -/
def HasWork (o : Options) : Prop :=
  o.skipMaintenance = false ∨ o.skipReports = false

/-- The conditions under which options make a configuration, for a range of the threshold. -/
structure Meets (inRange : Double → Prop) (o : Options) : Prop extends Readable o where
  work : o.HasWork
  topN : 5 ≤ o.topN
  threshold : inRange o.threshold
  purgeDays : 1 ≤ o.purgeDays

/-- The fault of the first condition that options do not meet. -/
inductive FirstViolation (inRange : Double → Prop) (o : Options) : ConfigurationFault → Prop
  | localNetwork {before : List String} {text : String} {after : List String} {fault : BlockFault} :
      o.localNetworks = before ++ text :: after → (∀ other ∈ before, Block.IsDenotedBy other) →
      Block.ofText text = .error fault → FirstViolation inRange o (.localNetwork text fault)
  | recipient {before : List String} {text : String} {after : List String} {fault : Mail.MailboxFault} :
      (∀ network ∈ o.localNetworks, Block.IsDenotedBy network) →
      o.recipients = before ++ text :: after → (∀ other ∈ before, Mail.IsMailbox other) →
      Mail.Mailbox.ofText text = .error fault → FirstViolation inRange o (.recipient text fault)
  | noWork : o.Readable → ¬o.HasWork → FirstViolation inRange o .noWork
  | limitTooSmall : o.Readable → o.HasWork → o.topN < 5 →
      FirstViolation inRange o (.limitTooSmall o.topN)
  | ratioOutOfRange : o.Readable → o.HasWork → 5 ≤ o.topN → ¬inRange o.threshold →
      FirstViolation inRange o (.ratioOutOfRange o.threshold)
  | purgeDaysZero : o.Readable → o.HasWork → 5 ≤ o.topN → inRange o.threshold → o.purgeDays = 0 →
      FirstViolation inRange o .purgeDaysZero

/-- Options make a configuration if and only if they meet the conditions, and a fault is reported if and only
if it is the fault of the first condition that they do not meet. -/
structure ValidatesBy (inRange : Double → Prop) (o : Options) : Prop where
  accepts : (∃ c, o.configuration = .ok c) ↔ o.Meets inRange
  refuses : ∀ f, o.configuration = .error f ↔ o.FirstViolation inRange f

/-- A configuration has the values of options, with the networks that their texts denote. -/
structure Carries (o : Options) (c : Configuration) : Prop where
  dryRun : c.dryRun = !o.production
  maintain : c.maintain = !o.skipMaintenance
  report : c.report = !o.skipReports
  purgeDays : c.purgeDays = o.purgeDays
  topN : c.topN = o.topN
  threshold : c.threshold = o.threshold
  recipients : c.recipients = o.recipients
  localNetworks : List.Forall₂ (fun text b => Block.ofText text = .ok b) o.localNetworks c.localNetworks

/-! ### Reading -/

theorem readNetwork_eq_ok_iff
    {text : String}
    {b : Block} :
    readNetwork text = .ok b ↔ Block.ofText text = .ok b :=
  mapError_eq_ok_iff

theorem readNetwork_eq_error_iff
    {text : String}
    {f : ConfigurationFault} :
    readNetwork text = .error f ↔ ∃ fault, Block.ofText text = .error fault ∧ .localNetwork text fault = f := by
  unfold readNetwork
  cases Block.ofText text <;> simp [Except.mapError]

theorem checkRecipient_eq_ok_iff
    {text : String} :
    checkRecipient text = .ok () ↔ Mail.IsMailbox text := by
  unfold checkRecipient Mail.IsMailbox
  cases Mail.Mailbox.ofText text <;> simp

theorem checkRecipient_eq_error_iff
    {text : String}
    {f : ConfigurationFault} :
    checkRecipient text = .error f ↔
      ∃ fault, Mail.Mailbox.ofText text = .error fault ∧ .recipient text fault = f := by
  unfold checkRecipient
  cases Mail.Mailbox.ofText text <;> simp

theorem exists_networks
    (h : ∀ text ∈ o.localNetworks, Block.IsDenotedBy text) :
    ∃ networks, o.localNetworks.mapM readNetwork = .ok networks :=
  exists_mapM_eq_ok fun text htext => (h text htext).imp fun _ => readNetwork_eq_ok_iff.mpr

theorem recipients_checked
    (h : ∀ text ∈ o.recipients, Mail.IsMailbox text) :
    o.recipients.forM checkRecipient = .ok () := by
  obtain ⟨done, hdone⟩ := exists_mapM_eq_ok fun text htext =>
    ⟨(), checkRecipient_eq_ok_iff.mpr (h text htext)⟩
  rw [forM_eq_map_mapM, hdone]
  rfl

/-- The conditions on the values are checked after everything has been read. -/
theorem configuration_of_readable
    (h : o.Readable) :
    ∃ networks, o.localNetworks.mapM readNetwork = .ok networks ∧
      o.configuration = (o.configurationWith networks).validate.map fun _ => o.configurationWith networks := by
  obtain ⟨networks, hnetworks⟩ := exists_networks h.networks
  refine ⟨networks, hnetworks, ?_⟩
  rw [configuration, hnetworks]
  change (o.recipients.forM checkRecipient >>= _) = _
  rw [recipients_checked h.recipients]
  rfl

/-! ### Checking -/

theorem carries_of_eq_ok
    {c : Configuration}
    (h : o.configuration = .ok c) :
    o.Carries c := by
  obtain ⟨networks, hnetworks, hrest⟩ := exists_of_bind_eq_ok h
  obtain ⟨-, -, hrest⟩ := exists_of_bind_eq_ok hrest
  obtain ⟨-, -, hc⟩ := exists_of_bind_eq_ok hrest
  cases hc
  refine ⟨rfl, rfl, rfl, rfl, rfl, rfl, rfl, ?_⟩
  simp only [mapM_eq_ok_iff, readNetwork_eq_ok_iff] at hnetworks
  exact hnetworks

theorem hasWork_iff :
    (!o.skipMaintenance) = true ∨ (!o.skipReports) = true ↔ o.HasWork := by
  simp [HasWork]

theorem validate_configurationWith
    (o : Options)
    (networks : List Block) :
    (o.configurationWith networks).validate =
      if ¬((!o.skipMaintenance) = true ∨ (!o.skipReports) = true) then .error .noWork
      else if o.topN < 5 then .error (.limitTooSmall o.topN)
      else if ¬Configuration.acceptsThreshold o.threshold then .error (.ratioOutOfRange o.threshold)
      else if o.purgeDays = 0 then .error .purgeDaysZero
      else .ok () :=
  rfl

theorem configuration_of_meets
    (hrange : Configuration.acceptsThreshold o.threshold = true ↔ inRange o.threshold)
    (h : o.Meets inRange) :
    ∃ c, o.configuration = .ok c := by
  obtain ⟨networks, -, hconfiguration⟩ := configuration_of_readable h.toReadable
  have hvalid : (o.configurationWith networks).validate = .ok () := by
    rw [validate_configurationWith, if_neg (not_not.mpr (hasWork_iff.mpr h.work)),
      if_neg h.topN.not_gt, if_neg (not_not.mpr (hrange.mpr h.threshold)),
      if_neg (Nat.one_le_iff_ne_zero.mp h.purgeDays)]
  exact ⟨o.configurationWith networks, by rw [hconfiguration, hvalid]; rfl⟩

theorem configuration_of_firstViolation
    (hrange : Configuration.acceptsThreshold o.threshold = true ↔ inRange o.threshold)
    {f : ConfigurationFault}
    (h : o.FirstViolation inRange f) :
    o.configuration = .error f := by
  -- once everything has been read, what the check of the values reports is reported
  have hchecked (hreadable : o.Readable)
      (hvalidate : ∀ networks, (o.configurationWith networks).validate = .error f) :
      o.configuration = .error f := by
    obtain ⟨networks, -, hconfiguration⟩ := configuration_of_readable hreadable
    rw [hconfiguration, hvalidate]
    rfl
  cases h with
  | localNetwork hsplit hbefore hfault =>
      have hnetworks : o.localNetworks.mapM readNetwork = .error _ :=
        (mapM_eq_error_iff _ _ _).mpr ⟨_, _, _, hsplit,
          fun text htext => (hbefore text htext).imp fun _ => readNetwork_eq_ok_iff.mpr,
          readNetwork_eq_error_iff.mpr ⟨_, hfault, rfl⟩⟩
      rw [configuration, hnetworks]
      rfl
  | recipient hreadable hsplit hbefore hfault =>
      obtain ⟨networks, hnetworks⟩ := exists_networks hreadable
      have hrecipients : o.recipients.mapM checkRecipient = .error _ :=
        (mapM_eq_error_iff _ _ _).mpr ⟨_, _, _, hsplit,
          fun text htext => ⟨(), checkRecipient_eq_ok_iff.mpr (hbefore text htext)⟩,
          checkRecipient_eq_error_iff.mpr ⟨_, hfault, rfl⟩⟩
      rw [configuration, hnetworks]
      change (o.recipients.forM checkRecipient >>= _) = _
      rw [forM_eq_map_mapM, hrecipients]
      rfl
  | noWork hreadable hwork =>
      refine hchecked hreadable fun networks => ?_
      rw [validate_configurationWith, if_pos (hasWork_iff.not.mpr hwork)]
  | limitTooSmall hreadable hwork htop =>
      refine hchecked hreadable fun networks => ?_
      rw [validate_configurationWith, if_neg (not_not.mpr (hasWork_iff.mpr hwork)),
        if_pos htop]
  | ratioOutOfRange hreadable hwork htop hratio =>
      refine hchecked hreadable fun networks => ?_
      rw [validate_configurationWith, if_neg (not_not.mpr (hasWork_iff.mpr hwork)),
        if_neg htop.not_gt, if_pos (hrange.not.mpr hratio)]
  | purgeDaysZero hreadable hwork htop hratio hdays =>
      refine hchecked hreadable fun networks => ?_
      rw [validate_configurationWith, if_neg (not_not.mpr (hasWork_iff.mpr hwork)),
        if_neg htop.not_gt, if_neg (not_not.mpr (hrange.mpr hratio)), if_pos hdays]

theorem meets_or_firstViolation
    (inRange : Double → Prop)
    (o : Options) :
    o.Meets inRange ∨ ∃ f, o.FirstViolation inRange f := by
  have hread (text : String) : (∃ b, readNetwork text = .ok b) ↔ Block.IsDenotedBy text :=
    exists_congr fun _ => readNetwork_eq_ok_iff
  have hcheck (text : String) : (∃ done, checkRecipient text = .ok done) ↔ Mail.IsMailbox text := by
    rw [← checkRecipient_eq_ok_iff]
    exact ⟨fun ⟨_, h⟩ => h, fun h => ⟨_, h⟩⟩
  cases hnetworks : o.localNetworks.mapM readNetwork with
  | error f =>
      obtain ⟨before, text, after, hsplit, hbefore, hfault⟩ := (mapM_eq_error_iff _ _ _).mp hnetworks
      obtain ⟨fault, hfault, -⟩ := readNetwork_eq_error_iff.mp hfault
      exact .inr ⟨_, .localNetwork hsplit (fun other hother => (hread other).mp (hbefore other hother)) hfault⟩
  | ok networks =>
      have hnetworks : ∀ text ∈ o.localNetworks, Block.IsDenotedBy text := fun text htext =>
        (hread text).mp (exists_of_mapM_eq_ok hnetworks text htext)
      cases hrecipients : o.recipients.mapM checkRecipient with
      | error f =>
          obtain ⟨before, text, after, hsplit, hbefore, hfault⟩ := (mapM_eq_error_iff _ _ _).mp hrecipients
          obtain ⟨fault, hfault, -⟩ := checkRecipient_eq_error_iff.mp hfault
          exact .inr ⟨_, .recipient hnetworks hsplit
            (fun other hother => (hcheck other).mp (hbefore other hother)) hfault⟩
      | ok done =>
          have hreadable : o.Readable :=
            ⟨hnetworks, fun text htext => (hcheck text).mp (exists_of_mapM_eq_ok hrecipients text htext)⟩
          by_cases hwork : o.HasWork
          · rcases Nat.lt_or_ge o.topN 5 with htop | htop
            · exact .inr ⟨_, .limitTooSmall hreadable hwork htop⟩
            · by_cases hratio : inRange o.threshold
              · rcases Nat.eq_zero_or_pos o.purgeDays with hdays | hdays
                · exact .inr ⟨_, .purgeDaysZero hreadable hwork htop hratio hdays⟩
                · exact .inl ⟨hreadable, hwork, htop, hratio, hdays⟩
              · exact .inr ⟨_, .ratioOutOfRange hreadable hwork htop hratio⟩
          · exact .inr ⟨_, .noWork hreadable hwork⟩

theorem validatesBy_of_acceptsThreshold_iff
    (hrange : Configuration.acceptsThreshold o.threshold = true ↔ inRange o.threshold) :
    o.ValidatesBy inRange := by
  refine ⟨⟨?_, configuration_of_meets hrange⟩, fun f => ⟨?_, configuration_of_firstViolation hrange⟩⟩
  · rintro ⟨c, hc⟩
    rcases meets_or_firstViolation inRange o with hmeets | ⟨f, hf⟩
    · exact hmeets
    · cases (configuration_of_firstViolation hrange hf).symm.trans hc
  · intro hfault
    rcases meets_or_firstViolation inRange o with hmeets | ⟨f', hf'⟩
    · obtain ⟨c, hc⟩ := configuration_of_meets hrange hmeets
      cases hc.symm.trans hfault
    · cases (configuration_of_firstViolation hrange hf').symm.trans hfault
      exact hf'

/-- **Which options make a configuration.**  Options make a configuration if and only if they meet the
conditions, with the range of the threshold held up to the tolerance, and otherwise the first condition that
they do not meet is reported.  Away from the ends of the range the same holds with the range itself.  A
configuration has the values of the options, with the networks that their texts denote, and there is no message
that fails because of one of its recipients. -/
theorem configuration_validates
    (o : Options) :
    o.ValidatesBy Double.WithinTolerance ∧
    (¬o.threshold.NearEnds → o.ValidatesBy Double.InUnitRange) ∧
    ∀ c, o.configuration = .ok c →
      o.Carries c ∧
      ∀ sender subject text sent recipient fault,
        Mail.Message.make sender c.recipients subject text sent ≠ .error (.recipient recipient fault) := by
  have htolerance : o.ValidatesBy Double.WithinTolerance :=
    validatesBy_of_acceptsThreshold_iff Configuration.acceptsThreshold_iff
  refine ⟨htolerance, fun hfar => ?_, fun c hc => ⟨carries_of_eq_ok hc, ?_⟩⟩
  · exact validatesBy_of_acceptsThreshold_iff
      (Configuration.acceptsThreshold_iff.trans (Double.withinTolerance_iff hfar))
  · rw [(carries_of_eq_ok hc).recipients]
    exact Mail.make_ne_recipient_fault (htolerance.accepts.mp ⟨c, hc⟩).recipients

/-- One is the greatest threshold of the range, and it is accepted; the recipient is one that mail can be sent
to. -/
theorem one_makes_a_configuration :
    let o : Options := { threshold := Double.ofInt 1, recipients := ["ops@example.edu"] }
    o.ValidatesBy Double.InUnitRange ∧
    ∃ c, o.configuration = .ok c ∧ c.threshold = Double.ofInt 1 ∧ c.recipients = ["ops@example.edu"] ∧
      ∀ fault,
        Mail.Message.make "root@localhost" c.recipients "Report" "" 0 ≠
          .error (.recipient "ops@example.edu" fault) := by
  intro o
  have hvalue : (Double.ofInt 1).toRat? = some 1 := by decide +kernel
  have hfar : ¬o.threshold.NearEnds := by
    rintro ⟨x, hx, hnear⟩
    cases hvalue.symm.trans hx
    norm_num at hnear
  have hc : o.configuration = .ok (o.configurationWith Block.defaultLocal) := by decide +kernel
  obtain ⟨-, hrange, hcarried⟩ := configuration_validates o
  obtain ⟨hcarries, hmessage⟩ := hcarried _ hc
  exact ⟨hrange hfar, _, hc, hcarries.threshold, hcarries.recipients, hmessage _ _ _ _ _⟩

/-- The number that follows one. -/
def afterOne : Double :=
  .signed false (Configuration.oneRank + 1) (by decide)

/-- The least positive number. -/
def afterZero : Double :=
  .signed false 1 (by decide)

/-- The tolerance moves both ends of the range: the number that follows one is accepted, and the least positive
number is refused for being out of the range. -/
theorem tolerance_moves_both_ends :
    let above : Options := { threshold := afterOne }
    let below : Options := { threshold := afterZero }
    (¬above.ValidatesBy Double.InUnitRange ∧ ∃ c, above.configuration = .ok c) ∧
    ¬below.ValidatesBy Double.InUnitRange ∧ afterZero.InUnitRange ∧
      below.configuration = .error (.ratioOutOfRange afterZero) := by
  intro above below
  have habove : above.configuration = .ok (above.configurationWith Block.defaultLocal) := by decide +kernel
  have hbelow : below.configuration = .error (.ratioOutOfRange afterZero) := by decide +kernel
  have hafterOne : ¬afterOne.InUnitRange := by
    have hvalue : afterOne.toRat? = some (1 + (2 : Rat) ^ (-52 : Int)) := by decide +kernel
    rintro ⟨x, hx, -, hle⟩
    cases hvalue.symm.trans hx
    norm_num at hle
  have hafterZero : afterZero.InUnitRange :=
    ⟨Double.rankValue 1, by decide +kernel, by decide +kernel, by decide +kernel⟩
  refine ⟨⟨fun h => hafterOne (h.accepts.mp ⟨_, habove⟩).threshold, _, habove⟩, fun h => ?_, hafterZero, hbelow⟩
  cases (h.refuses _).mp hbelow with
  | ratioOutOfRange _ _ _ hratio => exact hratio hafterZero

end Options
end AccessAudit
