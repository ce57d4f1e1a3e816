import Oscilloscope.Disk

/-!
# Oscilloscope.Proofs.Disk

Files in directories: what is written there is what is read.

* `parsePath_joinPath`: a name joined to the text of a directory leads one step further than the
  directory, however the text of the directory ends.
* `Disk.entryAt?_put`: one entry changes, the others stay.
* `Disk.isDirectory_of_makeDirectories`: the directory is there after it has been made.
* `Disk.write_joinPath`, `Disk.read_joinPath`: writing and reading a name in a directory.
-/

namespace Oscilloscope

/-! ## Paths -/

/-- A text that stands for one entry of a directory. -/
structure IsName (name : String) : Prop where
  unbroken : '/' ∉ name.toList
  ne_empty : name ≠ ""
  ne_here : name ≠ "."
  ne_up : name ≠ ".."

section Paths

variable {name : String}

theorem pathParts_of_unbroken (h : '/' ∉ name.toList) : pathParts name = [name] := by
  have hnone : ∀ c ∈ name.toList, (c == '/') = false := by
    intro c hc
    rw [beq_eq_false_iff_ne]
    rintro rfl
    exact h hc
  rw [pathParts, List.splitOn, List.splitOnP_eq_singleton hnone]
  simp

theorem pathParts_slash (before after : String) :
    pathParts (before ++ "/" ++ after) = pathParts before ++ pathParts after := by
  have htext : (before ++ "/" ++ after).toList = before.toList ++ '/' :: after.toList := by simp
  rw [pathParts, htext, List.splitOn, List.splitOnP_append_cons _ _ (by simp), List.map_append]
  rfl

theorem IsName.follows (h : IsName name) (path : Path) :
    follow path name = path ++ [name] := by
  simp [follow, h.ne_empty, h.ne_here, h.ne_up]

theorem IsName.parts (h : IsName name) : pathParts name = [name] := pathParts_of_unbroken h.unbroken

/-- The parts of a name in a directory. The text of the directory may end with a slash of its own,
behind which it has an empty part. -/
theorem IsName.parts_joinPath (h : IsName name) (directory : String) :
    ∃ before, parsePath directory = before.foldl follow [] ∧
      pathParts (joinPath directory name) = before ++ [name] := by
  rw [joinPath]
  split
  · rename_i hended
    rcases hended with rfl | hslash
    · refine ⟨[], by decide, ?_⟩
      rw [String.empty_append, h.parts]
      rfl
    · obtain ⟨before, hbefore⟩ := List.getLast?_eq_some_iff.mp hslash
      have hdirectory : directory = String.ofList before ++ "/" := by
        apply String.toList_inj.mp
        simp [hbefore]
      refine ⟨pathParts (String.ofList before), ?_, ?_⟩
      · have hparts := pathParts_slash (String.ofList before) ""
        rw [String.append_empty, ← hdirectory] at hparts
        rw [parsePath, hparts, List.foldl_append]
        rfl
      · rw [hdirectory, pathParts_slash, h.parts]
  · exact ⟨pathParts directory, rfl, by rw [pathParts_slash, h.parts]⟩

theorem parsePath_joinPath (h : IsName name) (directory : String) :
    parsePath (joinPath directory name) = parsePath directory ++ [name] := by
  obtain ⟨before, hdirectory, hparts⟩ := h.parts_joinPath directory
  rw [parsePath, hparts, List.foldl_append, ← hdirectory]
  exact h.follows _

theorem meansDirectory_joinPath (h : IsName name) (directory : String) :
    meansDirectory (joinPath directory name) = false := by
  obtain ⟨before, -, hparts⟩ := h.parts_joinPath directory
  simp [meansDirectory, hparts, h.ne_empty, h.ne_here, h.ne_up]

end Paths

namespace Disk

/-! ## Entries -/

theorem lookup_filter_ne {entries : List (Path × Entry)} {path p : Path} (hne : p ≠ path) :
    (entries.filter (·.1 != path)).lookup p = entries.lookup p := by
  induction entries with
  | nil => rfl
  | cons e rest ih =>
    obtain ⟨here, entry⟩ := e
    by_cases hhere : p = here
    · subst hhere
      rw [List.filter_cons_of_pos (by simpa using hne), List.lookup_cons_self,
        List.lookup_cons_self]
    · have hother : (p == here) = false := beq_eq_false_iff_ne.mpr hhere
      rw [List.lookup_cons, hother, ← ih, List.filter_cons]
      split
      · rw [List.lookup_cons, hother]
      · rfl

theorem entryAt?_put (d : Disk) {path : Path} (hpath : path ≠ []) (e : Entry) (p : Path) :
    (d.put path e).entryAt? p = if p = path then some e else d.entryAt? p := by
  by_cases hroot : p = []
  · rw [entryAt?, if_pos hroot, entryAt?, if_pos hroot, if_neg (by rw [hroot]; exact hpath.symm)]
  · rw [entryAt?, if_neg hroot, entryAt?, if_neg hroot, put]
    by_cases hp : p = path
    · rw [if_pos hp, hp, List.lookup_cons_self]
    · rw [if_neg hp, List.lookup_cons, beq_eq_false_iff_ne.mpr hp]
      exact lookup_filter_ne hp

theorem isDirectory_of_makeBelow {base : Path} {names : List String} {d made : Disk}
    (hbase : d.isDirectory base = true) (hmade : makeBelow base names d = some made) :
    made.isDirectory (base ++ names) = true := by
  induction names generalizing base d with
  | nil =>
    cases hmade
    rwa [List.append_nil]
  | cons name rest ih =>
    have hnext : base ++ name :: rest = base ++ [name] ++ rest := by simp
    rw [makeBelow] at hmade
    rw [hnext]
    split at hmade
    · cases hmade
    · rename_i hthere
      exact ih (by simp [isDirectory, hthere]) hmade
    · refine ih ?_ hmade
      rw [isDirectory, entryAt?_put d (by simp), if_pos rfl]
      rfl

theorem isDirectory_of_makeDirectories {d made : Disk} {directory : String}
    (hmade : d.makeDirectories directory = some made) :
    made.isDirectory (parsePath directory) = true := by
  have hroot : d.isDirectory [] = true := rfl
  exact isDirectory_of_makeBelow hroot hmade

/-! ## Files -/

section Files

variable {d : Disk} {directory name : String}

theorem write_joinPath (hname : IsName name) (hthere : d.isDirectory (parsePath directory) = true)
    (content : String) :
    d.write (joinPath directory name) content =
      if d.isDirectory (parsePath directory ++ [name]) then none
      else some (d.put (parsePath directory ++ [name]) (.file content)) := by
  rw [write, parsePath_joinPath hname, meansDirectory_joinPath hname]
  simp [hthere]

theorem read_joinPath (hname : IsName name) {content : String}
    (hentry : d.entryAt? (parsePath directory ++ [name]) = some (.file content)) :
    d.read (joinPath directory name) = some content := by
  rw [read, parsePath_joinPath hname, hentry, meansDirectory_joinPath hname]
  rfl

/-- A file in a directory changes nothing else there. -/
theorem isDirectory_put_file {path p : Path} (hpath : path ≠ []) (hne : p ≠ path)
    (content : String) : (d.put path (.file content)).isDirectory p = d.isDirectory p := by
  rw [isDirectory, entryAt?_put d hpath, if_neg hne, isDirectory]

end Files

end Disk

end Oscilloscope
