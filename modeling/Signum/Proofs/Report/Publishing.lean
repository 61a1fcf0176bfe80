import Signum.Command.Perform
import Signum.Proofs.Workspace.Store
import Mathlib.Data.List.Nodup
import Mathlib.Logic.Relation
/- Reports are kept.

   Each report is written by a writer of its own, and the writers' files are written in any order
   (`Publishing.Step`). Whatever the order, a file that was written stays as it was written when
   no other is written at its place (`Publishing.Kept`), and so all are there at the end. The
   files of reports have places of their own when the names that are left of the names of their
   programs are different and are names (`apart_files`). What the command does is one of the
   orders (`runs_of_writeReports`). -/
namespace Signum

/-- A file to be written, with its content unless there is none. -/
abbrev Output := Bytes × Except Markdown.HtmlFault Bytes

/-- Files, and what each of some writers has still to write. -/
structure Publishing where
  files : FileStore
  writers : List (List Output)

namespace Publishing

/-- One of the writers writes its next file. A writer that cannot goes no further. -/
inductive Step : Publishing → Publishing → Prop where
  | write {files files' : FileStore} {before after : List (List Output)} {path content : Bytes}
      {rest : List Output} (h : files.write path content = .ok files') :
      Step ⟨files, before ++ ((path, .ok content) :: rest) :: after⟩
        ⟨files', before ++ rest :: after⟩

/-- Files are written, in any order. -/
abbrev Runs : Publishing → Publishing → Prop := Relation.ReflTransGen Step

/-- Every writer has come to its end. -/
def Done (s : Publishing) : Prop := ∀ w ∈ s.writers, w = []

/-- One writer for each report. -/
def start (files : FileStore) (folder : Bytes) (reports : List Report) : Publishing :=
  ⟨files, reports.map (Report.files folder)⟩

/-- No two of the files have one place. -/
def Apart (working : Place) (all : List Output) : Prop :=
  ∀ f ∈ all, ∀ g ∈ all, FileStore.landing working f.1 = FileStore.landing working g.1 → f = g

/-- Of all the files, each is still to be written or can be read. -/
structure Kept (working : Place) (all : List Output) (s : Publishing) : Prop where
  working_eq : s.files.working = working
  left_mem : ∀ w ∈ s.writers, ∀ f ∈ w, f ∈ all
  left_or_read : ∀ f ∈ all, (∃ w ∈ s.writers, f ∈ w) ∨
    ∃ content, f.2 = .ok content ∧ s.files.read f.1 = .ok content

variable {working : Place} {all : List Output} {s t : Publishing}

/-- Writing a file leaves it and those written before to be read. -/
theorem Kept.step (hapart : Apart working all) (hs : Kept working all s) (h : Step s t) :
    Kept working all t := by
  obtain @⟨files, files', before, after, path, content, rest, hwrite⟩ := h
  obtain ⟨hworking, hleft, hread⟩ := hs
  have hmem : ((path, .ok content) : Output) ∈ all :=
    hleft _ (List.mem_append_right _ List.mem_cons_self) _ List.mem_cons_self
  refine ⟨(FileStore.write_working hwrite).trans hworking, ?_, ?_⟩
  · intro w hw f hf
    rcases List.mem_append.mp hw with hw | hw
    · exact hleft w (List.mem_append_left _ hw) f hf
    · rcases List.mem_cons.mp hw with rfl | hw
      · exact hleft _ (List.mem_append_right _ List.mem_cons_self) f (List.mem_cons_of_mem _ hf)
      · exact hleft w (List.mem_append_right _ (List.mem_cons_of_mem _ hw)) f hf
  · intro f hf
    by_cases hself : f = (path, .ok content)
    · subst hself
      exact .inr ⟨content, rfl, FileStore.read_write hwrite⟩
    · rcases hread f hf with ⟨w, hw, hfw⟩ | ⟨old, hold, hreadOld⟩
      · left
        rcases List.mem_append.mp hw with hw | hw
        · exact ⟨w, List.mem_append_left _ hw, hfw⟩
        · rcases List.mem_cons.mp hw with rfl | hw
          · rcases List.mem_cons.mp hfw with hfw | hfw
            · exact absurd hfw hself
            · exact ⟨rest, List.mem_append_right _ List.mem_cons_self, hfw⟩
          · exact ⟨w, List.mem_append_right _ (List.mem_cons_of_mem _ hw), hfw⟩
      · have hplaces : FileStore.landing files.working f.1 ≠
            FileStore.landing files.working path := by
          change files.working = working at hworking
          rw [hworking]
          exact fun heq => hself (hapart f hf _ hmem heq)
        exact .inr ⟨old, hold, FileStore.read_write_of_ne hwrite hreadOld hplaces⟩

theorem Kept.runs (hapart : Apart working all) (hs : Kept working all s) (h : Runs s t) :
    Kept working all t := by
  induction h with
  | refl => exact hs
  | tail _ hstep ih => exact ih.step hapart hstep

/-- At the end all files can be read. -/
theorem Kept.read (hs : Kept working all s) (hdone : s.Done) {f : Output} (hf : f ∈ all) :
    ∃ content, f.2 = .ok content ∧ s.files.read f.1 = .ok content := by
  rcases hs.left_or_read f hf with ⟨w, hw, hfw⟩ | hread
  · rw [hdone w hw] at hfw
    cases hfw
  · exact hread

theorem kept_start (files : FileStore) (folder : Bytes) (reports : List Report) :
    Kept files.working (reports.flatMap (Report.files folder)) (start files folder reports) := by
  refine ⟨rfl, ?_, ?_⟩
  · intro w hw f hf
    obtain ⟨r, hr, rfl⟩ := List.mem_map.mp hw
    exact List.mem_flatMap.mpr ⟨r, hr, hf⟩
  · intro f hf
    obtain ⟨r, hr, hfr⟩ := List.mem_flatMap.mp hf
    exact .inl ⟨_, List.mem_map.mpr ⟨r, hr, rfl⟩, hfr⟩

end Publishing

/-! The files of reports. -/

theorem Path.Plain.append {name suffix : Bytes} (h : Plain name) (hlength : 2 ≤ suffix.length)
    (hslash : slash ∉ suffix) : Plain (name ++ suffix) := by
  have hpos : 0 < name.length := List.length_pos_iff.mpr h.ne_nil
  have hlong : 3 ≤ (name ++ suffix).length := by
    rw [List.length_append]
    omega
  refine ⟨?_, ?_, ?_, ?_⟩
  · exact List.append_ne_nil_of_left_ne_nil h.ne_nil suffix
  · intro heq
    rw [heq] at hlong
    exact absurd hlong (by decide)
  · intro heq
    rw [heq] at hlong
    exact absurd hlong (by decide)
  · rw [List.mem_append, not_or]
    exact ⟨h.no_slash, hslash⟩

namespace Report

/-- The report can be read from the folder, its summary and its page. -/
def Published (files : FileStore) (folder : Bytes) (r : Report) : Prop :=
  files.read (Path.join folder (Path.stem r.name ++ ".md")) = .ok r.markdown ∧
    ∃ page, r.page = .ok page ∧
      files.read (Path.join folder (Path.stem r.name ++ ".html")) = .ok page

theorem files_eq {r : Report} (h : Path.Plain (Path.stem r.name)) (folder : Bytes) :
    r.files folder = [(Path.join folder (Path.stem r.name ++ ".md"), .ok r.markdown),
      (Path.join folder (Path.stem r.name ++ ".html"), r.page)] := by
  have hsummary : Path.Plain (Path.stem r.name ++ ".md") := h.append (by decide) (by decide)
  have hpage : Path.Plain (Path.stem r.name ++ ".html") := h.append (by decide) (by decide)
  unfold files
  rw [Path.join_plain h, Path.join_plain hsummary, Path.join_plain hpage]
  simp only [List.append_assoc]

/-- Reports whose names leave one name are not both there unless they say the same. -/
theorem not_both_published {files : FileStore} {folder : Bytes} {r r' : Report}
    (hstem : Path.stem r.name = Path.stem r'.name) (hne : r.markdown ≠ r'.markdown) :
    ¬(r.Published files folder ∧ r'.Published files folder) := by
  rintro ⟨⟨hread, -⟩, ⟨hread', -⟩⟩
  rw [hstem, hread'] at hread
  exact hne (Except.ok.inj hread).symm

/-- The suffixes of the two files tell them apart. -/
theorem suffix_ne (x y : Bytes) : x ++ Bytes.ofString ".md" ≠ y ++ Bytes.ofString ".html" := by
  intro heq
  have hlast := congrArg List.getLast? heq
  rw [List.getLast?_append_of_ne_nil _ (by decide),
    List.getLast?_append_of_ne_nil _ (by decide)] at hlast
  exact absurd hlast (by decide)

/-- Files of reports have places of their own when what is left of the names is different. -/
theorem apart_files (working : Place) (folder : Bytes) {reports : List Report}
    (hplain : ∀ r ∈ reports, Path.Plain (Path.stem r.name))
    (hdiff : (reports.map fun r => Path.stem r.name).Nodup) :
    Publishing.Apart working (reports.flatMap (Report.files folder)) := by
  obtain ⟨place, hplace⟩ := FileStore.landing_lead working folder
  have hsame : ∀ r ∈ reports, ∀ r' ∈ reports, Path.stem r.name = Path.stem r'.name → r = r' :=
    fun r hr r' hr' heq => List.inj_on_of_nodup_map hdiff hr hr' heq
  have hlanding : ∀ r ∈ reports, ∀ suffix ∈ [Bytes.ofString ".md", Bytes.ofString ".html"],
      FileStore.landing working (Path.join folder (Path.stem r.name ++ suffix)) =
        place ++ [Path.stem r.name ++ suffix] := by
    intro r hr suffix hsuffix
    have hname : Path.Plain (Path.stem r.name ++ suffix) := by
      apply (hplain r hr).append
      · revert suffix
        decide
      · revert suffix
        decide
    rw [Path.join_plain hname]
    exact hplace _ hname
  have hmd : Bytes.ofString ".md" ∈ [Bytes.ofString ".md", Bytes.ofString ".html"] :=
    List.mem_cons_self
  have hhtml : Bytes.ofString ".html" ∈ [Bytes.ofString ".md", Bytes.ofString ".html"] :=
    List.mem_cons_of_mem _ List.mem_cons_self
  intro f hf g hg heq
  obtain ⟨r, hr, hfr⟩ := List.mem_flatMap.mp hf
  obtain ⟨r', hr', hgr⟩ := List.mem_flatMap.mp hg
  rw [files_eq (hplain r hr)] at hfr
  rw [files_eq (hplain r' hr')] at hgr
  simp only [List.mem_cons, List.not_mem_nil, or_false] at hfr hgr
  -- files of one kind at one place have one stem, and files of two kinds end in different ways
  rcases hfr with rfl | rfl <;> rcases hgr with rfl | rfl <;> dsimp only at heq
  · rw [hlanding r hr _ hmd, hlanding r' hr' _ hmd] at heq
    have hstem := List.append_cancel_right (List.singleton_inj.mp (List.append_cancel_left heq))
    rw [hsame r hr r' hr' hstem]
  · rw [hlanding r hr _ hmd, hlanding r' hr' _ hhtml] at heq
    exact absurd (List.singleton_inj.mp (List.append_cancel_left heq)) (suffix_ne _ _)
  · rw [hlanding r hr _ hhtml, hlanding r' hr' _ hmd] at heq
    exact absurd (List.singleton_inj.mp (List.append_cancel_left heq)).symm (suffix_ne _ _)
  · rw [hlanding r hr _ hhtml, hlanding r' hr' _ hhtml] at heq
    have hstem := List.append_cancel_right (List.singleton_inj.mp (List.append_cancel_left heq))
    rw [hsame r hr r' hr' hstem]

/-- In whatever order the files are written, all reports are there when all are written. -/
theorem published_of_runs {files : FileStore} {folder : Bytes} {reports : List Report}
    {s : Publishing} (hplain : ∀ r ∈ reports, Path.Plain (Path.stem r.name))
    (hdiff : (reports.map fun r => Path.stem r.name).Nodup)
    (hruns : Publishing.Runs (.start files folder reports) s) (hdone : s.Done) :
    ∀ r ∈ reports, r.Published s.files folder := by
  intro r hr
  have hapart := apart_files files.working folder hplain hdiff
  have hkept := (Publishing.kept_start files folder reports).runs hapart hruns
  have hmem : ∀ f ∈ r.files folder, f ∈ reports.flatMap (Report.files folder) :=
    fun f hf => List.mem_flatMap.mpr ⟨r, hr, hf⟩
  rw [files_eq (hplain r hr)] at hmem
  obtain ⟨summary, hsummary, hmd⟩ := hkept.read hdone (hmem _ List.mem_cons_self)
  obtain ⟨page, hpage, hhtml⟩ :=
    hkept.read hdone (hmem _ (List.mem_cons_of_mem _ List.mem_cons_self))
  cases hsummary
  exact ⟨hmd, page, hpage, hhtml⟩

end Report

/-! The command writes in one of the orders. -/

namespace Command

open Publishing (Runs Step)

theorem host_write (path content : Bytes) (s : Session) :
    StateT.run (Session.host.write path content) s =
      match s.files.write path content with
      | .ok files => (none, { s with files := files })
      | .error fault => (some fault, s) := by
  unfold Session.host
  simp only [StateT.run_bind, StateT.run_get]
  show StateT.run (match s.files.write path content with
    | .ok files => _
    | .error fault => _) s = _
  cases s.files.write path content <;> rfl

/-- A step ends with what the host says, if it says anything. -/
theorem orEnd_run (said : FileFault → Bytes) {act : StateM Session (Option FileFault)}
    {s s' : Session} {r : Option FileFault} (h : StateT.run act s = (r, s')) :
    (orEnd said act).run.run s =
      ((r.map fun fault => Ending.plain (said fault)).elim (.ok ()) .error, s') := by
  have hlift : (ExceptT.run (liftM act : Command.Step (StateM Session) _)).run s = (.ok r, s') := by
    show (Except.ok (StateT.run act s).1, (StateT.run act s).2) = _
    rw [h]
  unfold orEnd
  rw [ExceptT.run_bind, StateT.run_bind]
  rw [hlift]
  cases r <;> rfl

/-- A file is written, or the step ends. -/
theorem orEnd_write (said : FileFault → Bytes) (path content : Bytes) (s : Session) :
    (orEnd said (Session.host.write path content)).run.run s =
      match s.files.write path content with
      | .ok files => (.ok (), { s with files := files })
      | .error fault => (.error (.plain (said fault)), s) := by
  have hhost := host_write path content s
  cases hwrite : s.files.write path content with
  | ok files =>
    rw [hwrite] at hhost
    exact orEnd_run said hhost
  | error fault =>
    rw [hwrite] at hhost
    exact orEnd_run said hhost

/-- What a writer does on its own, it does among others. -/
theorem runs_of_writeFiles (name : Bytes) (before after : List (List Output)) :
    ∀ {outputs : List Output} {s s' : Session},
      (writeFiles Session.host name outputs).run.run s = (.ok (), s') →
      Runs ⟨s.files, before ++ outputs :: after⟩ ⟨s'.files, before ++ [] :: after⟩ := by
  intro outputs
  induction outputs with
  | nil =>
    intro s s' h
    cases h
    exact .refl
  | cons f rest ih =>
    intro s s' h
    obtain ⟨path, fault | content⟩ := f
    · cases h
    · rw [writeFiles, ExceptT.run_bind, StateT.run_bind, orEnd_write] at h
      cases hwrite : s.files.write path content with
      | error fault =>
        rw [hwrite] at h
        cases h
      | ok files =>
        rw [hwrite] at h
        exact .head (.write hwrite) (ih h)

/-- Reports written one after the other are written in one of the orders. -/
theorem runs_of_writeReports (folder : Bytes) : ∀ {reports : List Report}
    (before : List (List Output)) {s s' : Session},
      (writeReports Session.host folder reports).run s = (.ok (), s') →
      Runs ⟨s.files, before ++ reports.map (Report.files folder)⟩
        ⟨s'.files, before ++ reports.map fun _ => []⟩ := by
  intro reports
  induction reports with
  | nil =>
    intro before s s' h
    cases h
    exact .refl
  | cons r rest ih =>
    intro before s s' h
    obtain ⟨⟨ended, mid⟩, hfirst⟩ :
      ∃ x, (writeFiles Session.host r.name (r.files folder)).run.run s = x := ⟨_, rfl⟩
    obtain ⟨⟨later, last⟩, hlater⟩ :
      ∃ x, (writeReports Session.host folder rest).run mid = x := ⟨_, rfl⟩
    rw [writeReports, StateT.run_bind, hfirst] at h
    change StateT.run (writeReports Session.host folder rest >>= _) mid = _ at h
    rw [StateT.run_bind, hlater] at h
    cases ended with
    | error ending => cases h
    | ok u =>
      cases h
      have hmine := runs_of_writeFiles r.name before (rest.map (Report.files folder)) hfirst
      have hothers := ih (before ++ [[]]) hlater
      simp only [List.append_assoc, List.singleton_append] at hothers
      exact hmine.trans hothers

/-- A report command that ends well has built the reports and written all their files. -/
theorem runs_of_reportAll {config : Analysis.Config} {folder : Bytes}
    {programs : List LoadedProgram} {s s' : Session}
    (h : (reportAll Session.host config folder programs).run.run s = (.ok (), s')) :
    ∃ reports files,
      (programs.mapM fun p =>
        Report.build config p.name p.program p.context.variables.toList) = .ok reports ∧
      Runs (.start files folder reports) ⟨s'.files, reports.map fun _ => []⟩ := by
  unfold reportAll at h
  rw [ExceptT.run_bind, StateT.run_bind] at h
  obtain ⟨⟨made, s₁⟩, hmade⟩ :
    ∃ x, (orEnd FileFault.text (Session.host.makeFolders folder)).run.run s = x := ⟨_, rfl⟩
  rw [hmade] at h
  cases made with
  | error ending => cases h
  | ok u =>
    change ((orEnd FileFault.text (Session.host.write (Path.join folder "main.css")
      Report.styleSheet) >>= fun _ => _).run.run s₁) = _ at h
    rw [ExceptT.run_bind, StateT.run_bind, orEnd_write] at h
    cases hstyle : s₁.files.write (Path.join folder "main.css") Report.styleSheet with
    | error fault =>
      rw [hstyle] at h
      cases h
    | ok styled =>
      rw [hstyle] at h
      cases hbuild : (programs.mapM fun p =>
          Report.build config p.name p.program p.context.variables.toList) with
      | error fault =>
        rw [hbuild] at h
        cases h
      | ok reports =>
        rw [hbuild] at h
        exact ⟨reports, styled, rfl, runs_of_writeReports folder [] h⟩

end Command

namespace Report

theorem name_of_build {config : Analysis.Config} {name : Bytes} {program : Program}
    {declared : List Variable} {r : Report}
    (h : build config name program declared = .ok r) : r.name = name := by
  unfold build at h
  split at h
  · cases h
  · dsimp only at h
    split at h
    · cases h
      rfl
    · cases h
      rfl
    · cases h

theorem names_of_build {config : Analysis.Config} : ∀ {programs : List LoadedProgram}
    {reports : List Report},
    (programs.mapM fun p =>
      build config p.name p.program p.context.variables.toList) = .ok reports →
    reports.map (·.name) = programs.map (·.name) := by
  intro programs
  induction programs with
  | nil =>
    intro reports h
    cases h
    rfl
  | cons p rest ih =>
    intro reports h
    rw [List.mapM_cons] at h
    cases hfirst : build config p.name p.program p.context.variables.toList with
    | error fault =>
      rw [hfirst] at h
      cases h
    | ok r =>
      cases hrest : (rest.mapM fun p =>
          build config p.name p.program p.context.variables.toList) with
      | error fault =>
        rw [hfirst, hrest] at h
        cases h
      | ok others =>
        rw [hfirst, hrest] at h
        cases h
        rw [List.map_cons, List.map_cons, name_of_build hfirst, ih hrest]

end Report

/-- The reports on programs whose names leave different names are all there when the command has
written them, in whatever order. -/
theorem reports_kept (config : Analysis.Config) (folder : Bytes) {programs : List LoadedProgram}
    {reports : List Report}
    (hbuild : (programs.mapM fun p =>
      Report.build config p.name p.program p.context.variables.toList) = .ok reports)
    (hplain : ∀ p ∈ programs, Path.Plain (Path.stem p.name))
    (hdiff : (programs.map fun p => Path.stem p.name).Nodup) :
    reports.map (·.name) = programs.map (·.name) ∧
    (∀ files s, Publishing.Runs (.start files folder reports) s → s.Done →
      ∀ r ∈ reports, r.Published s.files folder) ∧
    (∀ s s' : Command.Session,
      (Command.reportAll Command.Session.host config folder programs).run.run s = (.ok (), s') →
      ∀ r ∈ reports, r.Published s'.files folder) := by
  have hnames := Report.names_of_build hbuild
  have hplain' : ∀ r ∈ reports, Path.Plain (Path.stem r.name) := by
    intro r hr
    have hname : r.name ∈ programs.map (·.name) := hnames ▸ List.mem_map_of_mem hr
    obtain ⟨p, hp, hpr⟩ := List.mem_map.mp hname
    rw [← hpr]
    exact hplain p hp
  have hdiff' : (reports.map fun r => Path.stem r.name).Nodup := by
    have hstems : (reports.map fun r => Path.stem r.name) =
        programs.map fun p => Path.stem p.name := by
      have hmap := congrArg (List.map Path.stem) hnames
      simpa [List.map_map, Function.comp_def] using hmap
    rw [hstems]
    exact hdiff
  refine ⟨hnames, ?_, ?_⟩
  · intro files s hruns hdone
    exact Report.published_of_runs hplain' hdiff' hruns hdone
  · intro s s' h
    obtain ⟨built, files, hbuilt, hruns⟩ := Command.runs_of_reportAll h
    obtain rfl : reports = built := Except.ok.inj (hbuild.symm.trans hbuilt)
    apply Report.published_of_runs hplain' hdiff' hruns
    intro w hw
    obtain ⟨r, -, rfl⟩ := List.mem_map.mp hw
    rfl

/-! Reports on empty programs. -/

/-- The program of an empty source. -/
def LoadedProgram.blank (name : Bytes) : LoadedProgram :=
  ⟨name, name, [], ⟨[], [], ⟨.origin, .origin⟩⟩, .start⟩

theorem LoadedProgram.ofSource_blank (name : Bytes) : ofSource name name [] = .ok (blank name) := by
  have hparse : Program.parse [] = .ok ⟨[], [], ⟨.origin, .origin⟩⟩ := by
    unfold Program.parse
    rw [Lexer.tokenize_eq_slices]
    unfold Lexer.slices
    rw [Lexer.gap_nil]
    dsimp only
    rw [Lexer.tokensFrom]
    dsimp only
    rw [Parser.items]
    rfl
  unfold ofSource
  rw [hparse]
  rfl

/-- The report on it. -/
def Report.blank (name : Bytes) : Report :=
  { name, program := ⟨[], [], ⟨.origin, .origin⟩⟩, documentation := ⟨[], none, [], [], none⟩,
    recording := .empty, output := [], «variables» := [], failure := none }

theorem Report.build_blank (config : Analysis.Config) (name : Bytes) :
    build config name (LoadedProgram.blank name).program
      (LoadedProgram.blank name).context.variables.toList = .ok (blank name) := by
  have hblocks : Markdown.parse [] = [] := by
    rw [← List.isEmpty_iff]
    decide +kernel
  have hcomment : Documentation.ofComment? [] = some ⟨[], none, [], [], none⟩ := by
    unfold Documentation.ofComment? Documentation.ofCommentBy?
    rw [hblocks]
    rfl
  have hnone : (LoadedProgram.blank name).program.documentation = [] := rfl
  unfold build
  rw [hnone, hcomment]
  rfl

theorem Report.builds_blank (config : Analysis.Config) (names : List Bytes) :
    ((names.map LoadedProgram.blank).mapM fun p =>
      build config p.name p.program p.context.variables.toList) = .ok (names.map blank) := by
  induction names with
  | nil => rfl
  | cons name rest ih =>
    have hfirst := build_blank config name
    rw [List.map_cons, List.mapM_cons, ih]
    change (build config name (LoadedProgram.blank name).program
      (LoadedProgram.blank name).context.variables.toList >>= _) = _
    rw [hfirst]
    rfl

/-- Two programs in one folder. -/
theorem reports_kept_blank :
    let programs := [Bytes.ofString "a/x.sg", Bytes.ofString "a/y.sg"].map LoadedProgram.blank
    let reports := [Bytes.ofString "a/x.sg", Bytes.ofString "a/y.sg"].map Report.blank
    ((∀ p ∈ programs, Path.Plain (Path.stem p.name)) ∧
      (programs.map fun p => Path.stem p.name).Nodup) ∧
    reports.map (·.name) = programs.map (·.name) ∧
    (∀ files s, Publishing.Runs (.start files "report" reports) s → s.Done →
      ∀ r ∈ reports, r.Published s.files "report") ∧
    ∀ s s' : Command.Session,
      (Command.reportAll Command.Session.host ⟨0, false⟩ "report" programs).run.run s =
        (.ok (), s') →
      ∀ r ∈ reports, r.Published s'.files "report" := by
  intro programs reports
  have hplain : ∀ p ∈ programs, Path.Plain (Path.stem p.name) := by
    intro p hp
    simp only [programs, List.map_cons, List.map_nil, List.mem_cons, List.not_mem_nil,
      or_false] at hp
    rcases hp with rfl | rfl <;> exact ⟨by decide, by decide, by decide, by decide⟩
  have hdiff : (programs.map fun p => Path.stem p.name).Nodup := by decide
  exact ⟨⟨hplain, hdiff⟩,
    reports_kept ⟨0, false⟩ "report" (Report.builds_blank ⟨0, false⟩ _) hplain hdiff⟩

/-- The reports on two programs of one name are written without a fault. -/
theorem writeReports_same_stem :
    ∃ s' : Command.Session, (Command.writeReports Command.Session.host "report"
      [Report.blank "a/x.sg", Report.blank "b/x.sg"]).run
        ⟨⟨[([Bytes.ofString "report"], .folder)], []⟩, [], []⟩ = (.ok (), s') := ⟨_, rfl⟩

/-- Of two programs of one name in different folders, a report is lost in every order. -/
theorem same_stem_loses_report :
    let names := [Bytes.ofString "a/x.sg", Bytes.ofString "b/x.sg"]
    let reports := names.map Report.blank
    names.Nodup ∧ (∀ name ∈ names, LoadedProgram.ofSource name name [] = .ok (.blank name)) ∧
    ((names.map LoadedProgram.blank).mapM fun p =>
      Report.build ⟨0, false⟩ p.name p.program p.context.variables.toList) = .ok reports ∧
    (∃ files s, Publishing.Runs (.start files "report" reports) s ∧ s.Done) ∧
    ∀ files s, Publishing.Runs (.start files "report" reports) s → s.Done →
      ¬∀ r ∈ reports, r.Published s.files "report" := by
  intro names reports
  refine ⟨by decide, fun name _ => LoadedProgram.ofSource_blank name,
    Report.builds_blank ⟨0, false⟩ names, ?_, ?_⟩
  · obtain ⟨s', hwritten⟩ := writeReports_same_stem
    refine ⟨_, _, Command.runs_of_writeReports "report" [] hwritten, ?_⟩
    intro w hw
    obtain ⟨r, -, rfl⟩ := List.mem_map.mp hw
    rfl
  · intro files s _ _ hall
    have hfirst : Report.blank "a/x.sg" ∈ reports := List.mem_map_of_mem (by decide)
    have hsecond : Report.blank "b/x.sg" ∈ reports := List.mem_map_of_mem (by decide)
    have hstem : Path.stem (Bytes.ofString "a/x.sg") = Path.stem (Bytes.ofString "b/x.sg") := by
      decide
    have hne : (Report.blank "a/x.sg").markdown ≠ (Report.blank "b/x.sg").markdown := by
      decide +kernel
    exact Report.not_both_published hstem hne ⟨hall _ hfirst, hall _ hsecond⟩

end Signum
