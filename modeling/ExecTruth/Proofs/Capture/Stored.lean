import ExecTruth.Capture.Store
import ExecTruth.Proofs.Capture.RoundTrip
import ExecTruth.Proofs.Files.Jobs

/-! # Stored captures — what is in a file, and what saving leaves there

    A file filled with a capture is read back as that capture by every path that leads
    to it (`stored_of_fileAt?`).  Saving fills the file that a path leads to, if it
    succeeds (`saved_of_save`), so what is saved is read back (`Saved.stored_eq`); the
    null device alone takes a capture and keeps nothing of it. -/

namespace ExecTruth

open Job

namespace RichCapture

/-! ## Reading and writing -/

/-- The capture that a path leads to, or why there is none. -/
def stored (p : Path) (t : FileTree) : Except CaptureFault RichCapture :=
  (sourceAt p t).mapError .ofIo >>= fun s => parse s >>= fun x => .ok x.1

theorem answers_load (p : Path) : (load p).Answers (stored p) :=
  ((answers_openSource p).wrap CaptureFault.ofIo).bind fun s =>
    (answers_ofExcept (parse s)).bind fun x => answers_pure x.1

/-- The capture that a path leads to, if it is of the build with a digest. -/
def ofBuild? (t : FileTree) (p : Path) (digest : String) : Option RichCapture :=
  match stored p t with
  | .ok c => if c.digest = digest then some c else none
  | .error _ => none

/-- Of the files, only what stands at the end of the path counts. -/
theorem ofBuild?_congr {t t' : FileTree} {p : Path} (h : t'.nodeAt? p = t.nodeAt? p)
    (digest : String) : ofBuild? t' p digest = ofBuild? t p digest := by
  have hnode : ∀ t : FileTree, ofBuild? t p digest = (t.nodeAt? p).bind fun node =>
      match parse (sourceOf node) with
      | .ok x => if x.1.digest = digest then some x.1 else none
      | .error _ => none := by
    intro t
    rw [ofBuild?, stored, sourceAt, FileTree.nodeAt?]
    rcases t.locate p with e | ⟨loc, node⟩
    · rfl
    · -- where the node stands is not looked at
      show (match parse (sourceOf node) >>= fun x => .ok x.1 with
        | .ok c => if c.digest = digest then some c else none
        | .error _ => none) = _
      cases hparse : parse (sourceOf node) <;> simp [hparse, bind, Except.bind]
  rw [hnode, hnode, h]

/-- Writing is to the end if the digest fits. -/
theorem outcome_emit_eq_ok_iff {c : RichCapture} :
    c.emit.outcome = .ok () ↔ (Text.Utf8.encode c.digest).length ≤ maxDigest := by
  constructor
  · intro h
    refine Nat.le_of_not_lt fun hlong => ?_
    rw [emit, if_pos hlong] at h
    exact nomatch h
  · intro h
    rw [emit_of_fits h]
    rfl

/-- The bytes of a capture are never none, since the magic bytes are among them. -/
theorem encode_ne_nil (c : RichCapture) : c.encode ≠ [] := by simp [encode, magic]

/-- What is parsed of what the path hands out is what is stored there. -/
theorem stored_of_parse {t : FileTree} {p : Path} {s rest : Source} {c : RichCapture}
    (hsource : sourceAt p t = .ok s) (hparse : parse s = .ok (c, rest)) : stored p t = .ok c := by
  have hok : (sourceAt p t).mapError CaptureFault.ofIo = .ok s := by
    rw [hsource]
    rfl
  rw [stored, hok]
  exact congrArg (· >>= fun x => .ok x.1) hparse

/-- A file filled with a capture is read back as that capture. -/
theorem stored_of_fileAt? {t : FileTree} {p : Path} {loc : Location} {c : RichCapture}
    (hloc : t.fileAt? p = some loc) (hfile : t.find? loc = some (.file c.encode))
    (hdigest : (Text.Utf8.encode c.digest).length ≤ maxDigest) (hcount : c.Countable) :
    stored p t = .ok c := by
  have hbytes : (Source.ofBytes c.encode).bytes = c.encode ++ [] := by
    simp [Source.ofBytes, Source.bytes]
  obtain ⟨rest, hparse, -⟩ := (exact_parse hdigest hcount).whole hbytes
  refine stored_of_parse ?_ hparse
  rw [sourceAt, FileTree.locate_of_fileAt? hloc hfile]
  rfl

/-- The tree `t'` is `t` with a capture written through a path: in the file that the path
    leads to, or nowhere if it leads to the null device. -/
structure Saved (p : Path) (c : RichCapture) (t t' : FileTree) : Prop where
  fits : (Text.Utf8.encode c.digest).length ≤ maxDigest
  place : (∃ loc, t.fileAt? p = some loc ∧ t' = t.put loc (.file c.encode))
    ∨ t.nodeAt? p = some .nullDevice ∧ t' = t

/-- A capture that is saved without a fault is written through its path. -/
theorem saved_of_save {p : Path} {c : RichCapture} {h h' : Host}
    (hsave : save p c h = .ok () h') : Saved p c h.files h'.files := by
  have hsend : sendTo p .ofIo c.emit h = .ok () h' := hsave
  have hout := outcome_of_sendTo_ok hsend
  have hfits := outcome_emit_eq_ok_iff.1 hout
  refine ⟨hfits, ?_⟩
  cases hloc : h.files.fileAt? p with
  | some loc =>
      rw [sendTo_of_fileAt? hloc, hout, emit_of_fits hfits] at hsend
      cases hsend
      exact Or.inl ⟨loc, rfl, rfl⟩
  | none =>
      obtain ⟨r, hr, hok⟩ := sendTo_of_no_file hloc
      rw [hr] at hsend
      cases r with
      | error e => exact nomatch hsend
      | ok u =>
          cases hsend
          obtain ⟨-, hnode | ⟨-, hbytes⟩⟩ := hok rfl
          · exact Or.inr ⟨hnode, rfl⟩
          · -- the full device takes nothing, and a capture is not nothing
            rw [emit_of_fits hfits] at hbytes
            exact absurd hbytes c.encode_ne_nil

/-- What is saved other than to the null device fills a file, and every path leads
    where it led. -/
theorem Saved.fileAt?_eq {p : Path} {c : RichCapture} {t t' : FileTree} (h : Saved p c t t')
    (hdevice : t.nodeAt? p ≠ some .nullDevice) :
    (∀ q, t'.fileAt? q = t.fileAt? q)
    ∧ ∃ loc, t'.fileAt? p = some loc ∧ t'.find? loc = some (.file c.encode) := by
  rcases h.place with ⟨loc, hloc, rfl⟩ | ⟨hnode, -⟩
  · have hroom := FileTree.hasRoom_of_fileAt? hloc
    have hsame := (hroom.agreeBut_put c.encode).fileAt?_eq
    refine ⟨hsame, loc, (hsame p).trans hloc, ?_⟩
    rw [FileTree.find?_put hroom.ne_root, if_pos rfl]
  · exact absurd hnode hdevice

/-- What is saved through a path, other than to the null device, is what the path leads
    to, and is read back. -/
theorem Saved.stored_eq {p : Path} {c : RichCapture} {t t' : FileTree} (h : Saved p c t t')
    (hdevice : t.nodeAt? p ≠ some .nullDevice) (hcount : c.Countable) :
    t'.nodeAt? p = some (.file c.encode) ∧ stored p t' = .ok c := by
  obtain ⟨-, loc, hloc, hfile⟩ := h.fileAt?_eq hdevice
  exact ⟨FileTree.nodeAt?_of_fileAt? hloc hfile, stored_of_fileAt? hloc hfile h.fits hcount⟩

/-- What is read back is found under its own digest only. -/
theorem ofBuild?_of_stored {p : Path} {c : RichCapture} {t : FileTree} (h : stored p t = .ok c)
    (digest : String) : ofBuild? t p digest = if c.digest = digest then some c else none := by
  rw [ofBuild?, h]

end RichCapture

end ExecTruth
