import Extraction.Host.Memory
import Extraction.Proofs.HostRun
import Extraction.Proofs.Planning
/-!
Runs on a host in memory. A run that succeeds has created the planned file under a key that was
free, and has left the planned text in the buffer; a host that refuses nothing lets a plan succeed
that was made for its buffer.
-/

namespace Extraction

namespace FileMap

variable (path : String) (content : Bytes)

theorem insert_perm (files : FileMap) :
    (insert path content files).Perm ((path, content) :: files) := by
  induction files with
  | nil => exact .refl _
  | cons entry files ih =>
      rw [insert]
      split
      · exact .refl _
      · exact (ih.cons entry).trans (.swap _ _ _)

theorem get?_congr {path other : String} (hkey : Path.components path = Path.components other)
    (files : FileMap) : get? files path = get? files other := by
  simp only [get?, hkey]

theorem get?_cons (entry : String × Bytes) (files : FileMap) (other : String) :
    get? (entry :: files) other =
      if Path.components entry.1 = Path.components other then some entry.2
      else get? files other := by
  simp only [get?, List.find?_cons]
  by_cases hkey : Path.components entry.1 = Path.components other
  · rw [if_pos hkey, beq_iff_eq.mpr hkey]
    rfl
  · rw [if_neg hkey, beq_eq_false_iff_ne.mpr hkey]

theorem get?_insert {files : FileMap} (hfree : get? files path = none) (other : String) :
    get? (insert path content files) other =
      if Path.components path = Path.components other then some content
      else get? files other := by
  induction files with
  | nil => exact get?_cons _ _ _
  | cons entry files ih =>
      rw [insert]
      split
      · exact get?_cons _ _ _
      · rw [get?_cons] at hfree
        have hentry : Path.components entry.1 ≠ Path.components path := by
          intro hkey
          rw [if_pos hkey] at hfree
          cases hfree
        rw [if_neg hentry] at hfree
        rw [get?_cons, get?_cons, ih hfree]
        by_cases hkey : Path.components path = Path.components other
        · rw [if_pos hkey, if_neg (hkey ▸ hentry), if_pos hkey]
        · rw [if_neg hkey, if_neg hkey]

/-- Files that were created one after the other, the newest first, under keys that were free. -/
structure Gained (start : FileMap) (created : List SynthesizedFile) (files : FileMap) :
    Prop where
  entries : files.Perm (created.map (fun file => (file.path, file.content)) ++ start)
  keys_nodup : (created.map fun file => Path.components file.path).Nodup
  fresh : ∀ file ∈ created, get? start file.path = none
  contents : ∀ file ∈ created, get? files file.path = some file.content
  kept : ∀ path content, get? start path = some content → get? files path = some content

theorem Gained.refl (start : FileMap) : Gained start [] start := by
  constructor
  · exact .refl _
  · exact .nil
  · intro file hfile
    cases hfile
  · intro file hfile
    cases hfile
  · intro path content hstart
    exact hstart

theorem get?_insert_of_some {files : FileMap} (hfree : get? files path = none) {other : String}
    {old : Bytes} (hother : get? files other = some old) :
    get? (insert path content files) other = some old := by
  have hkey : Path.components path ≠ Path.components other := by
    intro hkey
    rw [get?_congr hkey, hother] at hfree
    cases hfree
  rw [get?_insert path content hfree, if_neg hkey, hother]

theorem Gained.insert {start files : FileMap} {created : List SynthesizedFile}
    (h : Gained start created files) (file : SynthesizedFile)
    (hfree : get? files file.path = none) :
    Gained start (file :: created) (FileMap.insert file.path file.content files) := by
  constructor
  · exact (insert_perm _ _ _).trans (h.entries.cons _)
  · rw [List.map_cons, List.nodup_cons]
    refine ⟨?_, h.keys_nodup⟩
    intro hmem
    obtain ⟨old, hold, hkey⟩ := List.mem_map.mp hmem
    have hcontents := h.contents old hold
    rw [get?_congr hkey, hfree] at hcontents
    cases hcontents
  · intro new hnew
    rcases List.mem_cons.mp hnew with rfl | hnew
    · cases hstart : get? start new.path with
      | none => rfl
      | some content =>
          rw [h.kept _ _ hstart] at hfree
          cases hfree
    · exact h.fresh new hnew
  · intro new hnew
    rcases List.mem_cons.mp hnew with rfl | hnew
    · rw [get?_insert _ _ hfree, if_pos rfl]
    · exact get?_insert_of_some _ _ hfree (h.contents new hnew)
  · intro path content hstart
    exact get?_insert_of_some _ _ hfree (h.kept path content hstart)

end FileMap

/-- A run on a host in memory that can fail. -/
abbrev MemoryRun (α : Type) :=
  StateM MemoryHost (Except ExtractError α)

namespace MemoryHost

variable {host next : MemoryHost}

/-! A primitive that succeeds was not refused, and did what it is for. -/

theorem of_writeFile_ok {path : String} {content : Bytes}
    (h : host.writeFile path content = (.ok (), next)) :
    host.failWrites = none ∧ FileMap.get? host.files path = none ∧
      next = { host with files := FileMap.insert path content host.files } := by
  unfold writeFile at h
  split at h
  · cases h
  · next hwrites =>
      split at h
      · cases h
      · next hfree =>
          cases h
          exact ⟨hwrites, hfree, rfl⟩

theorem of_replaceRange_ok {span : Span} {text : Bytes}
    (h : host.replaceRange span text = (.ok (), next)) :
    span.fits host.buffer = true ∧ next = { host with buffer := host.buffer.splice span text } := by
  unfold replaceRange spliceBuffer at h
  split at h
  · cases h
  · next hsplice =>
      cases h
      split at hsplice
      · next hfits =>
          cases hsplice
          exact ⟨hfits, rfl⟩
      · cases hsplice

theorem of_replaceAll_ok {text : Bytes} (h : host.replaceAll text = (.ok (), next)) :
    host.failReplaceAll = none ∧ next = { host with buffer := text } := by
  unfold replaceAll at h
  split at h
  · cases h
  · next hreplaceAll =>
      cases h
      exact ⟨hreplaceAll, rfl⟩

def stateRun : StateRun (StateM MemoryHost) MemoryHost where
  run action host := action host
  run_pure _ _ := rfl
  run_bind _ _ _ := rfl

theorem announce_eq (plan : ExtractionPlan) (host : MemoryHost) :
    stateRun.announce plan host =
      { host with
        opened := host.opened ++ [plan.file.path]
        notifications := host.notifications ++ plan.notifications } := by
  rcases plan with ⟨names, modulePath, file, edit, _ | ⟨_ | _, keep⟩⟩
  case none | some.rewired => rfl
  case some.blockNotFound sourceWithImport =>
    have happend : ∀ warning info : Notification,
        host.notifications ++ [warning] ++ [info] = host.notifications ++ [warning, info] := by
      intro warning info
      rw [List.append_assoc]
      rfl
    exact congrArg (fun notifications => { host with
      opened := host.opened ++ [file.path], notifications }) (happend _ _)

theorem writeFile_of_free {host : MemoryHost} {path : String} {content : Bytes}
    (hwrites : host.failWrites = none) (hfree : FileMap.get? host.files path = none) :
    host.writeFile path content =
      (.ok (), { host with files := FileMap.insert path content host.files }) := by
  unfold writeFile
  split
  · next hkind =>
      rw [hwrites] at hkind
      cases hkind
  · split
    · next hcontent =>
        rw [hfree] at hcontent
        cases hcontent
    · rfl

theorem replaceRange_of_fits {host : MemoryHost} {edit : TextEdit}
    (hfits : edit.span.fits host.buffer = true) :
    host.replaceRange edit.span edit.replacement =
      (.ok (), { host with buffer := edit.apply host.buffer }) := by
  rw [replaceRange, spliceBuffer_of_fits hfits]
  rfl

theorem replaceAll_of_none {host : MemoryHost} {text : Bytes}
    (hreplaceAll : host.failReplaceAll = none) :
    host.replaceAll text = (.ok (), { host with buffer := text }) := by
  unfold replaceAll
  split
  · next hreason =>
      rw [hreplaceAll] at hreason
      cases hreason
  · rfl

/-- A plan that was made for the buffer of a host that refuses nothing. -/
theorem run_planned {extractor : Extractor} {request : ExtractRequest} {plan : ExtractionPlan}
    {host : MemoryHost} (hplan : extractor.plan request = .ok plan)
    (hbuffer : host.buffer = request.buffer) (hwrites : host.failWrites = none)
    (hreplaceAll : host.failReplaceAll = none)
    (hfree : FileMap.get? host.files plan.file.path = none) :
    (extractor.run request : MemoryRun ExtractionReport) host =
      (.ok plan.finalReport,
        { host with
          buffer := plan.finalBuffer request.buffer
          files := FileMap.insert plan.file.path plan.file.content host.files
          opened := host.opened ++ [plan.file.path]
          notifications := host.notifications ++ plan.notifications }) := by
  have hrun : (extractor.run request : MemoryRun ExtractionReport) host =
      stateRun.run plan.apply host := stateRun.run_of_plan_ok hplan host
  let created : MemoryHost :=
    { host with files := FileMap.insert plan.file.path plan.file.content host.files }
  have hedited : created.buffer = request.buffer := hbuffer
  have hfits : plan.selectionEdit.span.fits created.buffer = true := by
    rw [hedited]
    exact Extractor.fits_of_plan_ok hplan
  have happly : stateRun.run plan.apply host =
      (.ok plan.finalReport, stateRun.announce plan
        { created with buffer := plan.finalBuffer request.buffer }) := by
    apply StateRun.run_apply_of_ok (writeFile_of_free hwrites hfree) (replaceRange_of_fits hfits)
    · intro hreplacement
      rw [hedited, ExtractionPlan.finalBuffer_of_none hreplacement]
    · intro text hreplacement
      rw [ExtractionPlan.finalBuffer_of_some hreplacement]
      exact replaceAll_of_none hreplaceAll
  rw [hrun, happly, announce_eq]

end MemoryHost

variable {host next : MemoryHost} {report : ExtractionReport}

/-- A run that succeeds did all that was planned. -/
theorem ExtractionPlan.of_apply_ok {plan : ExtractionPlan}
    (h : (plan.apply : MemoryRun ExtractionReport) host = (.ok report, next)) :
    report = plan.finalReport ∧ next.buffer = plan.finalBuffer host.buffer ∧
      FileMap.get? host.files plan.file.path = none ∧
      next.files = FileMap.insert plan.file.path plan.file.content host.files := by
  have hrun : MemoryHost.stateRun.run plan.apply host = (.ok report, next) := h
  have happlied := MemoryHost.stateRun.applied plan host
  rw [hrun] at happlied
  cases happlied with
  | edited hwrite hrange hreplacement =>
      obtain ⟨-, hfree, rfl⟩ := MemoryHost.of_writeFile_ok hwrite
      obtain ⟨-, rfl⟩ := MemoryHost.of_replaceRange_ok hrange
      rw [MemoryHost.announce_eq, finalBuffer_of_none hreplacement]
      exact ⟨rfl, rfl, hfree, rfl⟩
  | rewired hwrite hrange hreplacement hbuffer =>
      obtain ⟨-, hfree, rfl⟩ := MemoryHost.of_writeFile_ok hwrite
      obtain ⟨-, rfl⟩ := MemoryHost.of_replaceRange_ok hrange
      obtain ⟨-, rfl⟩ := MemoryHost.of_replaceAll_ok hbuffer
      rw [MemoryHost.announce_eq, finalBuffer_of_some hreplacement]
      exact ⟨rfl, rfl, hfree, rfl⟩

theorem Extractor.of_run_ok {extractor : Extractor} {request : ExtractRequest}
    (h : (extractor.run request : MemoryRun ExtractionReport) host =
      (.ok report, next)) :
    ∃ plan, extractor.plan request = .ok plan ∧
      (plan.apply : MemoryRun ExtractionReport) host = (.ok report, next) := by
  unfold run at h
  cases hplan : extractor.plan request with
  | error err =>
      simp only [hplan] at h
      cases hsilent : err.isSilent <;> simp only [hsilent] at h <;> cases h
  | ok plan =>
      rw [hplan] at h
      exact ⟨plan, rfl, h⟩

end Extraction
