import ExecTruth.Proofs.Capture.Layout
import ExecTruth.Proofs.Files.Directories
import ExecTruth.Suite.Sample

/-! # Samples — which captures of a directory are found, and in which order

    A file name is that of a capture exactly if it is a name and `.capture` behind it
    (`nameOf?_eq_some_iff`); further dots belong to the name.  Whether a capture is a sample is
    told by its counterpart alone (`sampleOf?_eq_some_iff`), so the samples are those pairs in
    any order of the directory, and their names are distinct as those of the files are.  Sorted
    by name they stand in the one order that there is (`findAll_pairs`). -/

namespace ExecTruth

open Job FileTree

namespace Sample

variable {dynamicDir staticDir : Path} {suffix name : String} {t t' : FileTree} {dir : Location}
  {fileName : List UInt8} {node : Node} {s : Sample} {loc : Location}

/-- A sample pairs a capture in a directory with a static capture: both are regular files, the
    second perhaps by way of links, and both are called as the sample is, but for the endings. -/
structure Pairs (t : FileTree) (dir : Location) (dynamicDir staticDir : Path) (suffix : String)
    (s : Sample) : Prop where
  name_ne : s.name ≠ ""
  dynamicPath : s.dynamicPath = dynamicDir.join (Path.ofString (s.name ++ ".capture"))
  staticPath : s.staticPath = staticDir.join (Path.ofString (s.name ++ suffix))
  dynamic : ∃ contents, t.find? (dir ++ [Text.Utf8.encode (s.name ++ ".capture")])
    = some (.file contents)
  static : ∃ contents, t.nodeAt? s.staticPath = some (.file contents)

/-! ## One entry of the directory -/

/-- The name of the sample that a capture of a file name is of. -/
def nameOf? (fileName : List UInt8) : Option String :=
  if (Path.splitExtension fileName).2 = some extension then
    (Text.Utf8.decode (Path.splitExtension fileName).1).toOption
  else none

/-- The ending of a capture is a dot and its extension. -/
theorem encode_capture (name : String) :
    Text.Utf8.encode (name ++ ".capture") = Text.Utf8.encode name ++ Path.dot :: extension := by
  rw [Text.Utf8.encode_append]
  rfl

theorem encode_eq_nil_iff : Text.Utf8.encode name = [] ↔ name = "" := by
  rw [← Text.Utf8.decode_eq_ok_iff]
  constructor
  · intro h
    exact (Except.ok.inj h).symm
  · rintro rfl
    rfl

/-- The name of a sample is the text in front of the ending, and is not empty. -/
theorem nameOf?_eq_some_iff : nameOf? fileName = some name
    ↔ name ≠ "" ∧ fileName = Text.Utf8.encode (name ++ ".capture") := by
  have hdot : Path.dot ∉ extension := by decide
  rw [encode_capture, nameOf?, Ne, ← encode_eq_nil_iff]
  constructor
  · intro h
    split at h
    · next hextension =>
        have hdecode : Text.Utf8.decode (Path.splitExtension fileName).1 = .ok name := by
          cases hd : Text.Utf8.decode (Path.splitExtension fileName).1 with
          | error fault => rw [hd] at h; cases h
          | ok text => rw [hd] at h; cases h; rfl
        -- the name is decoded from the bytes in front of the last dot
        have hsplit : Path.splitExtension fileName = (Text.Utf8.encode name, some extension) :=
          Prod.ext (Text.Utf8.decode_eq_ok_iff.1 hdecode).symm hextension
        obtain ⟨heq, -, hne, -⟩ := Path.splitExtension_eq_iff.1 hsplit
        exact ⟨hne, heq⟩
    · cases h
  · rintro ⟨hne, heq⟩
    have hsplit : Path.splitExtension fileName = (Text.Utf8.encode name, some extension) :=
      Path.splitExtension_eq_iff.2 ⟨heq, hdot, hne, fun h => nomatch h.2⟩
    rw [hsplit, if_pos rfl, Text.Utf8.decode_encode]
    rfl

/-- The sample that an entry of the directory of captures is. -/
def sampleOf? (dynamicDir staticDir : Path) (suffix : String) (t : FileTree) :
    List UInt8 × Node → Option Sample
  | (fileName, .file _) => (nameOf? fileName).bind fun name =>
      let staticPath := staticDir.join (Path.ofString (name ++ suffix))
      if t.isFile staticPath then some ⟨name, dynamicDir.join ⟨fileName⟩, staticPath⟩ else none
  | _ => none

/-- A file of the directory is looked at for its sample, and no file is changed. -/
theorem observes_ofFile? (dynamicDir staticDir : Path) (suffix : String)
    (e : List UInt8 × Node) :
    (ofFile? dynamicDir staticDir suffix e).Observes
      fun t => .ok (sampleOf? dynamicDir staticDir suffix t e) := by
  obtain ⟨fileName, node⟩ := e
  cases node with
  | directory | link _ | nullDevice | fullDevice => exact observes_pure none
  | file contents =>
      intro h
      have hpair : Path.splitExtension fileName
          = ((Path.splitExtension fileName).1, (Path.splitExtension fileName).2) := rfl
      rw [ofFile?, hpair]
      dsimp only [sampleOf?]
      by_cases hextension : (Path.splitExtension fileName).2 = some extension
      · rw [if_neg (not_not_intro hextension)]
        cases hd : Text.Utf8.decode (Path.splitExtension fileName).1 with
        | error fault =>
            rw [nameOf?, if_pos hextension, hd]
            exact ⟨_, rfl⟩
        | ok name =>
            rw [nameOf?, if_pos hextension, hd]
            dsimp only [Except.toOption, Option.bind_some]
            rw [bind_of_ok (files_apply h)]
            split
            · exact ⟨_, rfl⟩
            · exact ⟨_, rfl⟩
      · rw [if_pos hextension, nameOf?, if_neg hextension]
        exact ⟨_, rfl⟩

/-- A file gives a sample exactly where its name has the ending and its static capture is a
    file. -/
theorem sampleOf?_eq_some_iff : sampleOf? dynamicDir staticDir suffix t (fileName, node) = some s
    ↔ s.name ≠ "" ∧ fileName = Text.Utf8.encode (s.name ++ ".capture")
      ∧ (∃ contents, node = .file contents)
      ∧ s.dynamicPath = dynamicDir.join (Path.ofString (s.name ++ ".capture"))
      ∧ s.staticPath = staticDir.join (Path.ofString (s.name ++ suffix))
      ∧ ∃ contents, t.nodeAt? s.staticPath = some (.file contents) := by
  -- only a file has a sample, whatever a link may lead to
  cases node with
  | directory | link _ | nullDevice | fullDevice => simp [sampleOf?]
  | file contents =>
      rw [sampleOf?, Option.bind_eq_some_iff]
      constructor
      · rintro ⟨name, hname, hsome⟩
        obtain ⟨hne, rfl⟩ := nameOf?_eq_some_iff.1 hname
        dsimp only at hsome
        split at hsome
        · next hstatic =>
            cases hsome
            exact ⟨hne, rfl, ⟨contents, rfl⟩, rfl, rfl, isFile_iff.1 hstatic⟩
        · cases hsome
      · rintro ⟨hne, rfl, -, hdynamic, hstatic, hfile⟩
        refine ⟨s.name, nameOf?_eq_some_iff.2 ⟨hne, rfl⟩, ?_⟩
        obtain ⟨name, dynamicPath, staticPath⟩ := s
        dsimp only at hdynamic hstatic hfile ⊢
        subst hdynamic hstatic
        exact if_pos (isFile_iff.2 hfile)

/-- The samples of a directory, sorted by name. -/
def sorted (dynamicDir staticDir : Path) (suffix : String) (dir : Location) (t : FileTree) :
    List Sample :=
  ((t.entries dir).filterMap (sampleOf? dynamicDir staticDir suffix t)).mergeSort
    fun a b => Path.nameLe (Text.Utf8.encode a.name) (Text.Utf8.encode b.name)

/-- The samples of a directory are the pairs. -/
theorem mem_sorted_iff (h : t.Distinct) : s ∈ sorted dynamicDir staticDir suffix dir t
    ↔ Pairs t dir dynamicDir staticDir suffix s := by
  rw [sorted, List.mem_mergeSort, List.mem_filterMap]
  constructor
  · rintro ⟨⟨fileName, node⟩, hmem, hsome⟩
    obtain ⟨hne, rfl, ⟨contents, rfl⟩, hdynamic, hstatic, hfile⟩ := sampleOf?_eq_some_iff.1 hsome
    exact ⟨hne, hdynamic, hstatic, ⟨contents, (mem_entries_iff h).1 hmem⟩, hfile⟩
  · rintro ⟨hne, hdynamic, hstatic, ⟨contents, hcapture⟩, hfile⟩
    exact ⟨_, (mem_entries_iff h).2 hcapture,
      sampleOf?_eq_some_iff.2 ⟨hne, rfl, ⟨contents, rfl⟩, hdynamic, hstatic, hfile⟩⟩

/-- Samples have different names, as their captures have. -/
theorem ascending_sorted (h : t.Distinct) :
    (sorted dynamicDir staticDir suffix dir t).Pairwise
      fun a b => Text.Utf8.encode a.name < Text.Utf8.encode b.name := by
  have hentries : (t.entries dir).Pairwise fun e e' => e.1 ≠ e'.1 :=
    List.pairwise_map.1 (nodup_entries h dir)
  refine Path.ascending_mergeSort (List.pairwise_map.2 (List.Pairwise.filterMap _ ?_ hentries))
  rintro ⟨fileName, node⟩ ⟨fileName', node'⟩ hne s hs s' hs' hname
  obtain ⟨-, rfl, -⟩ := sampleOf?_eq_some_iff.1 hs
  obtain ⟨-, rfl, -⟩ := sampleOf?_eq_some_iff.1 hs'
  refine hne ?_
  dsimp only
  rw [encode_capture, encode_capture, hname]

/-- A pair of files is one in whatever order the nodes are listed. -/
theorem Pairs.rearranged (hs : Pairs t dir dynamicDir staticDir suffix s) (h : Rearranged t t')
    (ht : t.Distinct) : Pairs t' dir dynamicDir staticDir suffix s := by
  obtain ⟨contents, hdynamic⟩ := hs.dynamic
  obtain ⟨contents', hstatic⟩ := hs.static
  exact ⟨hs.name_ne, hs.dynamicPath, hs.staticPath, ⟨contents, (h.within ht).kept _ _ hdynamic⟩,
    ⟨contents', (h.nodeAt?_eq_iff ht).2 hstatic⟩⟩

/-! ## The whole directory -/

/-- The search changes no file, and gives the sorted samples. -/
theorem findAll_eq (hdir : t.locate dynamicDir = .ok (dir, .directory)) (staticDir : Path)
    (suffix : String) (events : List Log.Event) : ∃ events',
    findAll dynamicDir staticDir suffix ⟨t, events⟩
      = .ok (sorted dynamicDir staticDir suffix dir t) ⟨t, events'⟩ := by
  have hlist : Job.listDirectory dynamicDir ⟨t, events⟩ = .ok (t.entries dir) ⟨t, events⟩ := by
    rw [Job.listDirectory, bind_of_ok (files_apply _), hdir]
    rfl
  obtain ⟨events', hsamples⟩ := observes_filterMapM
    (observes_ofFile? dynamicDir staticDir suffix) (t.entries dir) ⟨t, events⟩
  refine ⟨events', ?_⟩
  rw [findAll, bind_of_ok (wrap_eq_ok_iff.2 hlist), bind_of_ok hsamples]
  rfl

/-- Sorted, they are the same in whatever order the nodes are listed. -/
theorem sorted_of_rearranged (h : Rearranged t t') (ht : t.Distinct) :
    sorted dynamicDir staticDir suffix dir t' = sorted dynamicDir staticDir suffix dir t := by
  have ht' := h.distinct ht
  refine Path.eq_of_ascending (ascending_sorted ht') (ascending_sorted ht) fun s => ?_
  rw [mem_sorted_iff ht', mem_sorted_iff ht]
  exact ⟨fun hs => hs.rearranged h.symm ht', fun hs => hs.rearranged h ht⟩

/-- **SAMPLES**.  The samples of a directory are the captures in it that have a counterpart,
    each once and strictly ascending by name, in whatever order the directory is listed.  The
    files stay as they are. -/
theorem findAll_pairs (t : FileTree) (dynamicDir staticDir : Path) (suffix : String)
    (dir : Location) (ht : t.Distinct) (hdir : t.locate dynamicDir = .ok (dir, .directory)) :
    ∃ samples : List Sample,
      (∀ t' events, Rearranged t t' → ∃ events',
        findAll dynamicDir staticDir suffix ⟨t', events⟩ = .ok samples ⟨t', events'⟩)
      ∧ (samples.Pairwise fun a b => Text.Utf8.encode a.name < Text.Utf8.encode b.name)
      ∧ ∀ s, s ∈ samples ↔ Pairs t dir dynamicDir staticDir suffix s := by
  refine ⟨sorted dynamicDir staticDir suffix dir t, fun t' events hsame => ?_,
    ascending_sorted ht, fun s => mem_sorted_iff ht⟩
  rw [← sorted_of_rearranged hsame ht]
  exact findAll_eq ((hsame.within ht).locate_eq hdir) staticDir suffix events

/-! ## Captures with links and dots -/

/-- In `d` the captures of `ls` and `a.b`, and a link; in `s` a link and two files. -/
def linkedSamples : FileTree :=
  ⟨[([[100]], .directory), ([[115]], .directory),
    ([[100], Text.Utf8.encode "ls.capture"], .file []),
    ([[100], Text.Utf8.encode "a.b.capture"], .file []),
    ([[100], Text.Utf8.encode "x.capture"], .link ⟨Text.Utf8.encode "ls.capture"⟩),
    ([[115], Text.Utf8.encode "ls.o"], .link ⟨Text.Utf8.encode "x.o"⟩),
    ([[115], Text.Utf8.encode "a.b.o"], .file []),
    ([[115], Text.Utf8.encode "x.o"], .file [])], []⟩

/-- Listed backwards, the directory has the same samples: a counterpart may be a link, and a
    name has a dot in it, but a link is no capture. -/
theorem findAll_pairs_backwards :
    let t := linkedSamples
    let back : FileTree := ⟨t.nodes.reverse, t.workDir⟩
    t.Distinct ∧ t.locate ⟨[100]⟩ = .ok ([[100]], .directory) ∧ Rearranged t back
    ∧ ∃ samples events, findAll ⟨[100]⟩ ⟨[115]⟩ ".o" ⟨back, []⟩ = .ok samples ⟨back, events⟩
      ∧ (∃ s ∈ samples, s.name = "ls") ∧ (∃ s ∈ samples, s.name = "a.b")
      ∧ ¬ ∃ s ∈ samples, s.name = "x" := by
  intro t back
  have ht : t.Distinct := by
    show (t.nodes.map (·.1)).Nodup
    decide +kernel
  have hdir : t.locate ⟨[100]⟩ = .ok ([[100]], .directory) :=
    locate_eq_ok_iff.2 ⟨rfl, .enter (by simp) (by decide) rfl (by simp) .stop⟩
  have hback : Rearranged t back := ⟨rfl, List.reverse_perm _⟩
  obtain ⟨samples, hfind, -, hmem⟩ := findAll_pairs t ⟨[100]⟩ ⟨[115]⟩ ".o" [[100]] ht hdir
  obtain ⟨events, hrun⟩ := hfind back [] hback
  have found : ∀ name loc, name ≠ "" →
      t.find? ([[100]] ++ [Text.Utf8.encode (name ++ ".capture")]) = some (.file []) →
      t.locate ((⟨[115]⟩ : Path).join (Path.ofString (name ++ ".o"))) = .ok (loc, .file []) →
      ∃ s ∈ samples, s.name = name := by
    intro name loc hne hcapture hstatic
    have hnode : t.nodeAt? ((⟨[115]⟩ : Path).join (Path.ofString (name ++ ".o")))
        = some (.file []) := by rw [nodeAt?, hstatic]
    have hpairs : Pairs t [[100]] ⟨[100]⟩ ⟨[115]⟩ ".o"
        ⟨name, (⟨[100]⟩ : Path).join (Path.ofString (name ++ ".capture")),
          (⟨[115]⟩ : Path).join (Path.ofString (name ++ ".o"))⟩ :=
      ⟨hne, rfl, rfl, ⟨[], hcapture⟩, [], hnode⟩
    exact ⟨_, (hmem _).2 hpairs, rfl⟩
  have hls : t.locate ((⟨[115]⟩ : Path).join (Path.ofString ("ls" ++ ".o")))
      = .ok ([[115], Text.Utf8.encode "x.o"], .file []) := by
    refine locate_eq_ok_iff.2 ⟨by decide +kernel, ?_⟩
    have hsteps : ((⟨[115]⟩ : Path).join (Path.ofString ("ls" ++ ".o"))).steps
      = [.name [115], .name (Text.Utf8.encode "ls.o")] := by decide +kernel
    have hlink : t.find? [[115], Text.Utf8.encode "ls.o"]
      = some (.link ⟨Text.Utf8.encode "x.o"⟩) := by decide +kernel
    have hfile : t.find? [[115], Text.Utf8.encode "x.o"] = some (.file []) := by decide +kernel
    have htarget : (⟨Text.Utf8.encode "x.o"⟩ : Path).steps
      = [.name (Text.Utf8.encode "x.o")] := by decide +kernel
    rw [hsteps]
    refine .enter (by simp) (by decide) rfl (by simp)
      (.follow (by simp) (by decide +kernel) hlink (by simp) ?_)
    rw [htarget]
    exact .enter (by simp) (by decide +kernel) hfile (by simp) .stop
  have hdotted : t.locate ((⟨[115]⟩ : Path).join (Path.ofString ("a.b" ++ ".o")))
      = .ok ([[115], Text.Utf8.encode "a.b.o"], .file []) := by
    refine locate_eq_ok_iff.2 ⟨by decide +kernel, ?_⟩
    have hsteps : ((⟨[115]⟩ : Path).join (Path.ofString ("a.b" ++ ".o"))).steps
      = [.name [115], .name (Text.Utf8.encode "a.b.o")] := by decide +kernel
    have hfile : t.find? [[115], Text.Utf8.encode "a.b.o"] = some (.file []) := by decide +kernel
    rw [hsteps]
    exact .enter (by simp) (by decide) rfl (by simp)
      (.enter (by simp) (by decide +kernel) hfile (by simp) .stop)
  refine ⟨ht, hdir, hback, samples, events, hrun,
    found "ls" _ (by decide) (by decide +kernel) hls,
    found "a.b" _ (by decide) (by decide +kernel) hdotted, ?_⟩
  rintro ⟨s, hs, hname⟩
  obtain ⟨contents, hfile⟩ := ((hmem s).1 hs).dynamic
  rw [hname] at hfile
  have hlink : t.find? ([[100]] ++ [Text.Utf8.encode ("x" ++ ".capture")])
    = some (.link ⟨Text.Utf8.encode "ls.capture"⟩) := by decide +kernel
  cases hlink.symm.trans hfile

end Sample

end ExecTruth
