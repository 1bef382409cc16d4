import AccessAudit.Report

/-!
# What a report says

Whatever was reported, the text of a report is its header, the sections in the order in which they were
appended, and the summary, with an empty line between one and the next.  The header tells the start of the
run and what was configured; nothing but the summary depends on when the report is rendered.
-/

namespace AccessAudit
namespace Report

/-- The text of sections in order, with an empty line between one and the next. -/
inductive Body : List String → String → Prop
  | nothing : Body [] ""
  | only (part : String) : Body [part] part
  | before (part : String) {next : String} {rest : List String} {text : String}
      (h : Body (next :: rest) text) :
      Body (part :: next :: rest) (part ++ "\n\n" ++ text)

theorem body_join
    (parts : List String) :
    Body parts (join parts) := by
  unfold join
  induction parts with
  | nil =>
      rw [String.intercalate_nil]
      exact .nothing
  | cons part rest ih =>
      cases rest with
      | nil =>
          rw [String.intercalate_singleton]
          exact .only part
      | cons next rest =>
          rw [String.intercalate_cons_cons]
          exact .before part ih

/-- Sections have one text. -/
theorem body_iff
    {parts : List String}
    {text : String} :
    Body parts text ↔ text = join parts := by
  constructor
  · intro h
    unfold join
    induction h with
    | nothing => rw [String.intercalate_nil]
    | only part => rw [String.intercalate_singleton]
    | before part h ih => rw [String.intercalate_cons_cons, ih]
  · rintro rfl
    exact body_join parts

/-- The lines about a configuration: the kind of run, and what bears on its tasks. -/
def settingLines (config : Configuration) : List String :=
  [if config.dryRun then "    - dry-run selected\n" else "    - production-run selected\n"] ++
    (if config.maintain then [s!"    - purge records older than {config.purgeDays} day(s)\n"] else []) ++
    if config.report then
      [s!"    - limit result lists to {config.topN} record(s)\n",
        "    - open_session:auth ratio < " ++ config.threshold.shortestText ++ " considered suspect\n"]
    else []

/-- The header of the report on a run. -/
def heading (config : Configuration) (now : Int) : String :=
  "\n# iptracking maintenance and reporting run, " ++ Calendar.minuteText now ++ "\n\n" ++
    String.join (settingLines config) ++
    "\n\nThe following information was generated during the iptracking-maint run:"

/-- The summary of the computing time used. -/
def summary (used : CpuTime) : String :=
  let user := CpuTime.seconds used.user
  let system := CpuTime.seconds used.system
  "\n## Summary\n\n" ++
    "    --------------------------------------------------------------------------------\n" ++
    "      maintenance and reporting completed in " ++ (user + system).fixedText 6 ++ " s\n" ++
    "      (user: " ++ user.fixedText 6 ++ " s | system: " ++ system.fixedText 6 ++ " s)\n" ++
    "    --------------------------------------------------------------------------------\n"

theorem settings_eq
    (config : Configuration) :
    settings config = String.join (settingLines config) := by
  have hmode : ("    - " ++ (if config.dryRun then "dry" else "production") ++ "-run selected\n") =
      if config.dryRun then "    - dry-run selected\n" else "    - production-run selected\n" := by
    split <;> rfl
  unfold settings settingLines
  rw [hmode]
  cases config.maintain <;> cases config.report <;> simp [String.append_assoc]

theorem header_start
    (config : Configuration)
    (now : Int)
    (started : CpuTime) :
    (start config now started).header = heading config now := by
  unfold start heading join
  dsimp only
  rw [← settings_eq, String.intercalate_cons_cons, String.intercalate_cons_cons,
    String.intercalate_singleton]
  simp only [String.append_assoc]
  rfl

theorem footer_eq
    (used : CpuTime) :
    footer used = summary used := by
  unfold footer summary
  simp only [String.append_assoc]
  rfl

/-- **What a report says.**  Its text is the header, the sections in order and the summary of the time that
was used since it was begun. -/
theorem render_says
    (r : Report)
    (finished : CpuTime) :
    ∃ body, Body r.sections body ∧
      r.render finished =
        r.header ++ "\n\n" ++ body ++ "\n\n" ++ summary (finished.since r.started) := by
  refine ⟨join r.sections, body_join r.sections, ?_⟩
  unfold render
  rw [join, String.intercalate_cons_cons, String.intercalate_cons_cons, String.intercalate_singleton,
    footer_eq]
  simp only [String.append_assoc]

end Report
end AccessAudit
