import ContextHmi.Json.Value

/-!
# Log rotation

`Logger::write_record` and `Logger::rotate_if_needed` over a file system in which no operation fails:
a record that does not fit the log moves it, and every rotated log before it, one name further; the
last one is given up. Symbolic links and directories under these names are errors of the file system,
and are left out.

* `shift_apply`         : the loop moves every rotated log one name further;
* `Kept.write`          : a record is added to what is kept, and the oldest log makes room;
* `rotation_contiguous` : the logs are a suffix of the records, cut between two of them.
-/

namespace ContextHmi.Diagnostics

/-- The regular files by name, with their contents. -/
abbrev FileSystem := Bytes → Option Bytes

namespace FileSystem

/-- `std::filesystem::remove`. -/
def remove (name : Bytes) (files : FileSystem) : FileSystem := Function.update files name none

/-- `std::filesystem::rename` of a file that exists, onto one that may. -/
def rename (older newer : Bytes) (files : FileSystem) : FileSystem :=
  remove older (Function.update files newer (files older))

/-- What a stream opened with `std::ios::app` writes; the file is created if it does not exist. -/
def append (name text : Bytes) (files : FileSystem) : FileSystem :=
  Function.update files name (some ((files name).getD [] ++ text))

end FileSystem

/-- `LoggerConfig`. -/
structure LoggerConfig where
  path : Bytes
  queueCapacity : Nat := 1024
  rotationBytes : Nat := 8 * 1024 * 1024
  rotationFiles : Nat := 3
  maximumRecordBytes : Nat := 1024 * 1024

/-- What the constructor asks of a configuration. -/
structure LoggerConfig.Valid (config : LoggerConfig) : Prop where
  queueCapacity : config.queueCapacity ≠ 0
  rotationBytes : 4096 ≤ config.rotationBytes
  rotationFiles : config.rotationFiles ≠ 0 ∧ config.rotationFiles ≤ 32
  maximumRecordBytes : 256 ≤ config.maximumRecordBytes

/-- The name of a rotated log. -/
def rotatedName (path : Bytes) (index : Nat) : Bytes := path ++ "." ++ Bytes.decimal index

/-- The loop of `rotate_if_needed`, from the last index down to 2. -/
def shift (path : Bytes) : Nat → FileSystem → FileSystem
  | 0, files => files
  | 1, files => files
  | index + 2, files =>
    let older := rotatedName path (index + 1)
    let newer := rotatedName path (index + 2)
    shift path (index + 1)
      (if (files older).isSome then (files.remove newer).rename older newer else files)

/-- `rotate_if_needed`. -/
def rotateIfNeeded (config : LoggerConfig) (incomingBytes : Nat) (files : FileSystem) : FileSystem :=
  match files config.path with
  | none => files
  | some contents =>
    if contents.length ≤ config.rotationBytes ∧
        incomingBytes ≤ config.rotationBytes - contents.length then files
    else
      let first := rotatedName config.path 1
      ((shift config.path config.rotationFiles files).remove first).rename config.path first

/-- `write_record`. -/
def writeRecord (config : LoggerConfig) (files : FileSystem) (record : Bytes) : FileSystem :=
  (rotateIfNeeded config record.length files).append config.path record

/-! ### Names -/

theorem rotatedName_inj {path : Bytes} {i j : Nat} :
    rotatedName path i = rotatedName path j ↔ i = j :=
  ⟨fun h => Bytes.decimal_injective (List.append_cancel_left h), fun h => h ▸ rfl⟩

theorem rotatedName_ne (path : Bytes) (i : Nat) : rotatedName path i ≠ path := by
  intro h
  have hlength := congrArg List.length h
  simp only [rotatedName, List.length_append] at hlength
  have hdot : (bytes ".").length = 1 := by decide
  omega

section
variable {files : FileSystem} {name name' text : Bytes}

theorem remove_apply (name name' : Bytes) (files : FileSystem) :
    files.remove name name' = if name' = name then none else files name' :=
  Function.update_apply _ _ _ _

theorem append_apply (name name' text : Bytes) (files : FileSystem) :
    files.append name text name' =
      if name' = name then some ((files name).getD [] ++ text) else files name' :=
  Function.update_apply _ _ _ _

theorem rename_apply (older newer name : Bytes) (files : FileSystem) :
    files.rename older newer name =
      if name = older then none else if name = newer then files older else files name := by
  rw [FileSystem.rename, remove_apply, Function.update_apply]

end

/-! ### The loop -/

/-- Up to some index, no rotated log is missing before one that exists. -/
def Gapless (path : Bytes) (n : Nat) (files : FileSystem) : Prop :=
  ∀ i, i + 1 < n → files (rotatedName path (i + 1)) = none → files (rotatedName path (i + 2)) = none

/-- One turn of the loop. -/
def move (path : Bytes) (n : Nat) (files : FileSystem) : FileSystem :=
  if (files (rotatedName path (n + 1))).isSome then
    (files.remove (rotatedName path (n + 2))).rename (rotatedName path (n + 1))
      (rotatedName path (n + 2))
  else files

theorem move_apply {path : Bytes} {n : Nat} {files : FileSystem} (h : Gapless path (n + 2) files) :
    move path n files (rotatedName path (n + 1)) = none ∧
      move path n files (rotatedName path (n + 2)) = files (rotatedName path (n + 1)) ∧
      (∀ i, i ≠ n + 1 → i ≠ n + 2 →
        move path n files (rotatedName path i) = files (rotatedName path i)) ∧
      move path n files path = files path := by
  have hne : rotatedName path (n + 2) ≠ rotatedName path (n + 1) := by
    rw [ne_eq, rotatedName_inj]
    omega
  have hpath := fun i => (rotatedName_ne path i).symm
  unfold move
  by_cases hsome : (files (rotatedName path (n + 1))).isSome = true
  · rw [if_pos hsome]
    simp only [rename_apply, remove_apply, if_pos, if_neg hne, if_neg (Ne.symm hne), if_neg (hpath _)]
    refine ⟨trivial, trivial, fun i hi hi' => ?_, trivial⟩
    rw [if_neg (by rwa [rotatedName_inj]), if_neg (by rwa [rotatedName_inj]),
      if_neg (by rwa [rotatedName_inj])]
  · rw [if_neg hsome]
    have hnone : files (rotatedName path (n + 1)) = none := by simpa using hsome
    exact ⟨hnone, (h n (by omega) hnone).trans hnone.symm, fun i _ _ => rfl, rfl⟩

/-- **The loop moves every rotated log one name further.** -/
theorem shift_apply (path : Bytes) {n : Nat} {files : FileSystem} (h : Gapless path n files) :
    (∀ i, shift path n files (rotatedName path (i + 1)) =
      if i + 1 ≤ n ∧ 2 ≤ n then (if i = 0 then none else files (rotatedName path i))
      else files (rotatedName path (i + 1))) ∧
    shift path n files path = files path := by
  induction n generalizing files with
  | zero => exact ⟨fun i => by rw [if_neg (by omega)]; rfl, rfl⟩
  | succ n ih =>
    cases n with
    | zero => exact ⟨fun i => by rw [if_neg (by omega)]; rfl, rfl⟩
    | succ n =>
      obtain ⟨holder, hnewer, hother, hpath⟩ := move_apply h
      have hgapless : Gapless path (n + 1) (move path n files) := by
        intro i hi hnone
        by_cases hlast : i = n - 1 ∧ 0 < n
        · obtain ⟨rfl, hpos⟩ := hlast
          have hindex : n - 1 + 2 = n + 1 := by omega
          rw [hindex, holder]
        · rw [hother _ (by omega) (by omega)] at hnone ⊢
          exact h i (by omega) hnone
      obtain ⟨hshift, hshiftPath⟩ := ih hgapless
      have hstep : shift path (n + 2) files = shift path (n + 1) (move path n files) := rfl
      rw [hstep]
      refine ⟨fun i => ?_, hshiftPath.trans hpath⟩
      rw [hshift]
      by_cases hzero : i = 0
      · subst hzero
        by_cases hn : n = 0
        · subst hn
          rw [if_neg (by omega), if_pos (by omega), if_pos rfl, holder]
        · rw [if_pos (by omega), if_pos rfl, if_pos (by omega), if_pos rfl]
      · by_cases hmoved : i ≤ n
        · rw [if_pos (by omega), if_neg hzero, if_pos (by omega), if_neg hzero,
            hother i (by omega) (by omega)]
        · rw [if_neg (by omega)]
          by_cases hlast : i = n + 1
          · subst hlast
            rw [if_pos (by omega), if_neg hzero, hnewer]
          · rw [if_neg (by omega), hother _ (by omega) (by omega)]

/-! ### What is kept -/

/-- The rotated logs, from the latest to the oldest, under the names from 1 on. -/
def AreRotated (path : Bytes) (logs : List Bytes) (files : FileSystem) : Prop :=
  ∀ i, files (rotatedName path (i + 1)) = logs[i]?

theorem AreRotated.gapless {path : Bytes} {logs : List Bytes} {files : FileSystem}
    (h : AreRotated path logs files) (n : Nat) : Gapless path n files := by
  intro i _ hnone
  rw [h] at hnone ⊢
  rw [List.getElem?_eq_none_iff] at hnone ⊢
  omega

theorem AreRotated.rotate {config : LoggerConfig} {logs : List Bytes} {files : FileSystem}
    (h : AreRotated config.path logs files)
    (hlogs : logs.length ≤ config.rotationFiles) {contents : Bytes}
    (hpath : files config.path = some contents) {incoming : Nat}
    (hfull : ¬ (contents.length ≤ config.rotationBytes ∧
      incoming ≤ config.rotationBytes - contents.length)) :
    rotateIfNeeded config incoming files config.path = none ∧
      AreRotated config.path (contents :: logs.take (config.rotationFiles - 1))
        (rotateIfNeeded config incoming files) := by
  obtain ⟨hshift, hshiftPath⟩ := shift_apply config.path (h.gapless config.rotationFiles)
  have hne := rotatedName_ne config.path
  unfold rotateIfNeeded
  rw [hpath]
  simp only
  rw [if_neg hfull]
  refine ⟨by rw [rename_apply, if_pos rfl], fun i => ?_⟩
  rw [rename_apply, if_neg (hne _)]
  cases i with
  | zero =>
    rw [if_pos rfl, remove_apply, if_neg (hne _).symm, hshiftPath, hpath]
    rfl
  | succ i =>
    rw [if_neg (by rw [rotatedName_inj]; omega), remove_apply,
      if_neg (by rw [rotatedName_inj]; omega), hshift, List.getElem?_cons_succ]
    by_cases hkept : i + 1 + 1 ≤ config.rotationFiles
    · rw [if_pos (by omega), if_neg (by omega), h, List.getElem?_take_of_lt (by omega)]
    · rw [if_neg (by omega), h, List.getElem?_eq_none_iff.mpr (by omega),
        List.getElem?_eq_none_iff.mpr (by rw [List.length_take]; omega)]

/-- The records that were given up, those of the rotated logs from the latest to the oldest, and
those of the log. -/
structure Kept (config : LoggerConfig) (files : FileSystem) (records dropped : List Bytes)
    (rotated : List (List Bytes)) (current : List Bytes) : Prop where
  split : records = dropped ++ (rotated.reverse.flatten ++ current)
  rotatedFiles : AreRotated config.path (rotated.map List.flatten) files
  currentFile : (files config.path).getD [] = current.flatten
  count : rotated.length ≤ config.rotationFiles
  room : ∀ log ∈ current :: rotated, log.flatten.length ≤ config.rotationBytes
  full : dropped ≠ [] → rotated.length = config.rotationFiles

section
variable {config : LoggerConfig} {files : FileSystem} {records dropped current : List Bytes}
  {rotated : List (List Bytes)} {record : Bytes}

theorem Kept.append (h : Kept config files records dropped rotated current)
    (hroom : current.flatten.length + record.length ≤ config.rotationBytes) :
    Kept config (files.append config.path record) (records ++ [record]) dropped rotated
      (current ++ [record]) where
  split := by
    rw [h.split]
    simp only [List.append_assoc]
  rotatedFiles i := by
    rw [append_apply, if_neg (rotatedName_ne _ _), h.rotatedFiles]
  currentFile := by
    rw [append_apply, if_pos rfl, Option.getD_some, h.currentFile]
    simp
  count := h.count
  room log hlog := by
    rcases List.mem_cons.mp hlog with hlog | hlog
    · subst hlog
      simpa using hroom
    · exact h.room log (List.mem_cons_of_mem _ hlog)
  full := h.full

theorem Kept.rotate (h : Kept config files records dropped rotated current)
    (hvalid : config.rotationFiles ≠ 0) (hrecord : record.length ≤ config.rotationBytes)
    (hrotated : rotateIfNeeded config record.length files config.path = none ∧
      AreRotated config.path
        (current.flatten :: (rotated.map List.flatten).take (config.rotationFiles - 1))
        (rotateIfNeeded config record.length files)) :
    Kept config (writeRecord config files record) (records ++ [record])
      (dropped ++ (rotated.drop (config.rotationFiles - 1)).reverse.flatten)
      (current :: rotated.take (config.rotationFiles - 1)) [record] where
  split := by
    have hparts : rotated.reverse = (rotated.drop (config.rotationFiles - 1)).reverse ++
        (rotated.take (config.rotationFiles - 1)).reverse := by
      rw [← List.reverse_append, List.take_append_drop]
    rw [h.split, hparts]
    simp only [List.flatten_append, List.reverse_cons, List.flatten_cons, List.flatten_nil,
      List.append_assoc, List.append_nil]
  rotatedFiles i := by
    rw [writeRecord, append_apply, if_neg (rotatedName_ne _ _), hrotated.2, List.map_cons,
      List.map_take]
  currentFile := by
    rw [writeRecord, append_apply, if_pos rfl, hrotated.1]
    simp
  count := by
    rw [List.length_cons, List.length_take]
    omega
  room log hlog := by
    rcases List.mem_cons.mp hlog with hlog | hlog
    · subst hlog
      simpa using hrecord
    · rcases List.mem_cons.mp hlog with hlog | hlog
      · exact hlog ▸ h.room current List.mem_cons_self
      · exact h.room log (List.mem_cons_of_mem _ (List.mem_of_mem_take hlog))
  full hdropped := by
    have hcount := h.count
    rw [List.length_cons, List.length_take]
    by_cases hbefore : dropped = []
    · have hsome : rotated.drop (config.rotationFiles - 1) ≠ [] := by
        intro hnil
        rw [hbefore, hnil] at hdropped
        exact hdropped rfl
      have hlength := List.length_pos_of_ne_nil hsome
      rw [List.length_drop] at hlength
      omega
    · have hfull := h.full hbefore
      omega

/-- **A record is added to what is kept**; something is given up only once all the names are taken. -/
theorem Kept.write (h : Kept config files records dropped rotated current)
    (hvalid : config.rotationFiles ≠ 0) (hrecord : record.length ≤ config.rotationBytes) :
    ∃ dropped' rotated' current',
      Kept config (writeRecord config files record) (records ++ [record]) dropped' rotated' current' ∧
        (dropped' ≠ [] → rotated.length = config.rotationFiles) := by
  cases hpath : files config.path with
  | none =>
    have hsame : rotateIfNeeded config record.length files = files := by
      rw [rotateIfNeeded, hpath]
    have hempty : current.flatten = [] := by
      rw [← h.currentFile, hpath, Option.getD_none]
    refine ⟨dropped, rotated, current ++ [record], ?_, h.full⟩
    rw [writeRecord, hsame]
    exact h.append (by rw [hempty, List.length_nil]; omega)
  | some contents =>
    have hcontents : contents = current.flatten := by
      rw [← h.currentFile, hpath, Option.getD_some]
    by_cases hfits : contents.length ≤ config.rotationBytes ∧
        record.length ≤ config.rotationBytes - contents.length
    · have hsame : rotateIfNeeded config record.length files = files := by
        rw [rotateIfNeeded, hpath]
        exact if_pos hfits
      refine ⟨dropped, rotated, current ++ [record], ?_, h.full⟩
      rw [writeRecord, hsame]
      exact h.append (by rw [← hcontents]; omega)
    · have hlogs : (rotated.map List.flatten).length ≤ config.rotationFiles := by
        rw [List.length_map]
        exact h.count
      have hrotated := h.rotatedFiles.rotate hlogs hpath hfits
      rw [hcontents] at hrotated
      refine ⟨_, _, _, h.rotate hvalid hrecord hrotated, fun hdropped => ?_⟩
      by_cases hbefore : dropped = []
      · have hsome : rotated.drop (config.rotationFiles - 1) ≠ [] := by
          intro hnil
          rw [hbefore, hnil] at hdropped
          exact hdropped rfl
        have hlength := List.length_pos_of_ne_nil hsome
        rw [List.length_drop] at hlength
        have hcount := h.count
        omega
      · exact h.full hbefore

/-- The records one after the other. -/
def writeAll (config : LoggerConfig) (files : FileSystem) (records : List Bytes) : FileSystem :=
  records.foldl (writeRecord config) files

theorem Kept.writeAll (hvalid : config.rotationFiles ≠ 0) (hpath : files config.path = none)
    (hrotated : ∀ i, files (rotatedName config.path (i + 1)) = none)
    (hrecords : ∀ r ∈ records, r.length ≤ config.rotationBytes) :
    ∃ dropped rotated current,
      Kept config (writeAll config files records) records dropped rotated current := by
  induction records using List.reverseRecOn with
  | nil =>
    refine ⟨[], [], [], rfl, fun i => ?_, ?_, Nat.zero_le _, ?_, fun h => absurd rfl h⟩
    · exact hrotated i
    · show (files config.path).getD [] = _
      rw [hpath]
      rfl
    · intro log hlog
      rw [List.mem_singleton.mp hlog]
      exact Nat.zero_le _
  | append_singleton records record ih =>
    rw [List.forall_mem_append, List.forall_mem_singleton] at hrecords
    obtain ⟨dropped, rotated, current, hkept⟩ := ih hrecords.1
    obtain ⟨dropped', rotated', current', hkept', -⟩ := hkept.write hvalid hrecords.2
    refine ⟨dropped', rotated', current', ?_⟩
    rw [Diagnostics.writeAll, List.foldl_append]
    exact hkept'

end

/-! ### The logs together -/

/-- The logs one after the other, from `path.N` to `path.1` and then `path`; a missing one is empty. -/
def logText (config : LoggerConfig) (files : FileSystem) : Bytes :=
  ((List.range config.rotationFiles).reverse.flatMap fun i =>
    (files (rotatedName config.path (i + 1))).getD []) ++ (files config.path).getD []

theorem flatMap_range (n : Nat) (logs : List Bytes) (h : logs.length ≤ n) :
    ((List.range n).reverse.flatMap fun i => (logs[i]?).getD []) = logs.reverse.flatten := by
  induction n generalizing logs with
  | zero => rw [List.eq_nil_of_length_eq_zero (Nat.le_zero.mp h)]; rfl
  | succ n ih =>
    rw [List.range_succ, List.reverse_append, List.reverse_singleton, List.singleton_append,
      List.flatMap_cons]
    by_cases hshort : logs.length ≤ n
    · rw [ih logs hshort, List.getElem?_eq_none_iff.mpr hshort, Option.getD_none, List.nil_append]
    · obtain hnil | ⟨logs', oldest, hlogs⟩ := List.eq_nil_or_concat' logs
      · rw [hnil] at hshort
        exact absurd (Nat.zero_le n) hshort
      · subst hlogs
        have hlength : logs'.length = n := by
          rw [List.length_append, List.length_singleton] at h hshort
          omega
        have hsame : ((List.range n).reverse.flatMap fun i => ((logs' ++ [oldest])[i]?).getD []) =
            (List.range n).reverse.flatMap fun i => (logs'[i]?).getD [] := by
          apply List.flatMap_congr
          intro i hi
          rw [List.mem_reverse, List.mem_range] at hi
          rw [List.getElem?_append_left (by omega)]
        rw [hsame, ih logs' hlength.le, ← hlength, List.getElem?_concat_length, Option.getD_some,
          List.reverse_append, List.reverse_singleton, List.singleton_append, List.flatten_cons]

theorem Kept.logText {config : LoggerConfig} {files : FileSystem}
    {records dropped current : List Bytes} {rotated : List (List Bytes)}
    (h : Kept config files records dropped rotated current) :
    logText config files = (records.drop dropped.length).flatten := by
  have hlength : (rotated.map List.flatten).length ≤ config.rotationFiles := by
    rw [List.length_map]
    exact h.count
  have hall : (fun i => (files (rotatedName config.path (i + 1))).getD []) =
      fun i => ((rotated.map List.flatten)[i]?).getD [] := by
    funext i
    rw [h.rotatedFiles]
  rw [Diagnostics.logText, hall, flatMap_range _ _ hlength, h.currentFile, h.split, List.drop_left,
    List.flatten_append, ← List.map_reverse]
  rw [List.flatten_flatten]

/-- The names of the log and of its rotated logs. -/
def IsLogName (config : LoggerConfig) (name : Bytes) : Prop :=
  name = config.path ∨ ∃ i, name = rotatedName config.path (i + 1)

theorem Kept.bounded {config : LoggerConfig} {files : FileSystem}
    {records dropped current : List Bytes} {rotated : List (List Bytes)}
    (h : Kept config files records dropped rotated current) {name contents : Bytes}
    (hname : IsLogName config name) (hfile : files name = some contents) :
    contents.length ≤ config.rotationBytes := by
  rcases hname with rfl | ⟨i, rfl⟩
  · have hcurrent := h.currentFile
    rw [hfile, Option.getD_some] at hcurrent
    rw [hcurrent]
    exact h.room current List.mem_cons_self
  · rw [h.rotatedFiles, List.getElem?_map] at hfile
    obtain ⟨log, hlog, rfl⟩ := Option.map_eq_some_iff.mp hfile
    exact h.room log (List.mem_cons_of_mem _ (List.mem_of_getElem? hlog))

/-- **Rotation keeps a contiguous suffix within its bounds.** Records are written one after the other
where there was no log before. After each of them the logs, from the oldest to the latest, are all
the records from one of them on; none is longer than it may be; and what was given up was given up
when every name was already taken. -/
theorem rotation_contiguous {config : LoggerConfig} (hvalid : config.Valid) {files : FileSystem}
    (hpath : files config.path = none)
    (hrotated : ∀ i, files (rotatedName config.path (i + 1)) = none) {before : List Bytes}
    {last : Bytes} (hrecords : ∀ r ∈ before ++ [last], r.length ≤ config.rotationBytes) :
    ∃ k, logText config (writeAll config files (before ++ [last])) =
        ((before ++ [last]).drop k).flatten ∧
      (∀ name contents, IsLogName config name →
        writeAll config files (before ++ [last]) name = some contents →
          contents.length ≤ config.rotationBytes) ∧
      (k ≠ 0 → ∀ i < config.rotationFiles,
        (writeAll config files before (rotatedName config.path (i + 1))).isSome = true) := by
  rw [List.forall_mem_append, List.forall_mem_singleton] at hrecords
  obtain ⟨dropped, rotated, current, hkept⟩ :=
    Kept.writeAll hvalid.rotationFiles.1 hpath hrotated hrecords.1
  obtain ⟨dropped', rotated', current', hkept', hfull⟩ :=
    hkept.write hvalid.rotationFiles.1 hrecords.2
  have hafter : writeAll config files (before ++ [last]) =
      writeRecord config (writeAll config files before) last := by
    rw [writeAll, List.foldl_append]
    rfl
  rw [hafter]
  refine ⟨dropped'.length, hkept'.logText, fun name contents hname hfile => ?_, fun hk i hi => ?_⟩
  · exact hkept'.bounded hname hfile
  · have hcount := hfull fun hnil => hk (by rw [hnil, List.length_nil])
    rw [hkept.rotatedFiles, List.getElem?_map, Option.isSome_map, List.getElem?_eq_getElem (by omega)]
    rfl

/-- One rotated log, of the least size. -/
def smallLog : LoggerConfig := ⟨"log", 1, 4096, 1, 256⟩

def longRecord (character : UInt8) : Bytes := List.replicate 3000 character

/-- Three records of which no two fit one log: the first is given up. -/
theorem rotation_contiguous_sample :
    ∃ k, logText smallLog (writeAll smallLog (fun _ => none)
        ([longRecord 0x61, longRecord 0x62] ++ [longRecord 0x63])) =
        (([longRecord 0x61, longRecord 0x62] ++ [longRecord 0x63]).drop k).flatten ∧
      (∀ name contents, IsLogName smallLog name → writeAll smallLog (fun _ => none)
        ([longRecord 0x61, longRecord 0x62] ++ [longRecord 0x63]) name = some contents →
          contents.length ≤ smallLog.rotationBytes) ∧
      (k ≠ 0 → ∀ i < smallLog.rotationFiles, (writeAll smallLog (fun _ => none)
        [longRecord 0x61, longRecord 0x62] (rotatedName smallLog.path (i + 1))).isSome = true) := by
  have hvalid : smallLog.Valid := ⟨by decide, by decide, by decide, by decide⟩
  refine rotation_contiguous hvalid rfl (fun _ => rfl) fun r hr => ?_
  have hlength : ∀ c, (longRecord c).length = 3000 := fun c => List.length_replicate
  simp only [List.cons_append, List.nil_append, List.mem_cons, List.not_mem_nil, or_false] at hr
  rcases hr with rfl | rfl | rfl <;> rw [hlength] <;> decide

end ContextHmi.Diagnostics
