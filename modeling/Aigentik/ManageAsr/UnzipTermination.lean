import Aigentik.ManageAsr.UnzipModel

namespace Aigentik.ManageASRViewModel

open Strings Files

variable {refuses : List Str → Option Throwable} {destDir : List Str} {fs : FileSystem} {entry : ZipEntry}
  {stream before : ZipStream}

def Loop.Halted : Loop → Prop
  | .at .. => False
  | .ended _ | .threw .. => True

variable (refuses destDir) in
/-- The file system after the extraction of all the entries, unless something throws. -/
def extractAll : FileSystem → ZipStream → Option FileSystem
  | fs, [] => some fs
  | _, .error _ :: _ => none
  | fs, .ok entry :: stream =>
    match copy refuses destDir fs entry with
    | (_, some _) => none
    | (fs, none) => extractAll fs stream

variable (refuses destDir) in
/-- Entries of metadata stand only behind something that throws. -/
def MetadataUnreached (fs : FileSystem) (stream : ZipStream) : Prop :=
  ∀ before entry after, stream = before ++ .ok entry :: after → isMetadata entry = true →
    extractAll refuses destDir fs before = none

theorem metadataUnreached_nil : MetadataUnreached refuses destDir fs [] := fun before _ _ h ↦ by
  cases before <;> cases h

theorem metadataUnreached_error (e : Throwable) : MetadataUnreached refuses destDir fs (.error e :: stream) := by
  intro before entry after h _
  cases before with
  | nil => cases h
  | cons first before =>
    rw [(List.cons.inj h).1.symm]
    rfl

theorem metadataUnreached_ok : MetadataUnreached refuses destDir fs (.ok entry :: stream) ↔
    isMetadata entry = false ∧
      ∀ fs', copy refuses destDir fs entry = (fs', none) → MetadataUnreached refuses destDir fs' stream := by
  constructor
  · intro h
    refine ⟨?_, fun fs' hcopy before entry' after hstream hmetadata ↦ ?_⟩
    · by_contra hmetadata
      cases h [] entry stream rfl (eq_true_of_ne_false hmetadata)
    · have hnone := h (.ok entry :: before) entry' after (congrArg _ hstream) hmetadata
      rw [extractAll, hcopy] at hnone
      exact hnone
  · intro h before entry' after hstream hmetadata
    obtain ⟨hfirst, hrest⟩ := h
    cases before with
    | nil =>
      obtain ⟨hentry, -⟩ := List.cons.inj hstream
      cases hentry
      rw [hfirst] at hmetadata
      cases hmetadata
    | cons first before =>
      obtain ⟨hitem, htail⟩ := List.cons.inj hstream
      subst hitem
      rw [extractAll]
      cases hcopy : copy refuses destDir fs entry with
      | mk fs' failure =>
        cases failure with
        | some failure => rfl
        | none => exact hrest fs' hcopy before entry' after htail hmetadata

/-- An entry of metadata is the entry at hand for good. -/
theorem iterate_round_metadata (h : isMetadata entry = true) (n : ℕ) :
    (round refuses destDir)^[n] (.at entry stream fs) = .at entry stream fs :=
  Function.iterate_fixed (by rw [round, if_pos h]) n

theorem iterate_round_halted (loop : Loop) (h : loop.Halted) (n : ℕ) : (round refuses destDir)^[n] loop = loop := by
  refine Function.iterate_fixed ?_ n
  cases loop with
  | «at» _ _ _ => exact h.elim
  | ended _ => rfl
  | threw _ _ => rfl

theorem halted_of_metadataUnreached (h : MetadataUnreached refuses destDir fs stream) :
    ((round refuses destDir)^[stream.length] (getNextEntry fs stream)).Halted := by
  induction stream generalizing fs with
  | nil => trivial
  | cons item stream ih =>
    cases item with
    | error e =>
      rw [iterate_round_halted (getNextEntry fs (.error e :: stream)) trivial]
      trivial
    | ok entry =>
      obtain ⟨hentry, hrest⟩ := metadataUnreached_ok.mp h
      rw [List.length_cons, Function.iterate_succ_apply, getNextEntry, round,
        if_neg (by rw [hentry]; exact Bool.false_ne_true)]
      cases hcopy : copy refuses destDir fs entry with
      | mk fs' failure =>
        cases failure with
        | some failure =>
          simp only
          rw [iterate_round_halted (.threw failure fs') trivial]
          trivial
        | none => exact ih (hrest fs' hcopy)

theorem metadataUnreached_of_halted {n : ℕ} (h : ((round refuses destDir)^[n] (getNextEntry fs stream)).Halted) :
    MetadataUnreached refuses destDir fs stream := by
  induction stream generalizing fs n with
  | nil => exact metadataUnreached_nil
  | cons item stream ih =>
    cases item with
    | error e => exact metadataUnreached_error e
    | ok entry =>
      have hentry : isMetadata entry = false := by
        by_contra hmetadata
        rw [getNextEntry, iterate_round_metadata (eq_true_of_ne_false hmetadata)] at h
        exact h
      refine metadataUnreached_ok.mpr ⟨hentry, fun fs' hcopy ↦ ?_⟩
      cases n with
      | zero => exact h.elim
      | succ n =>
        rw [Function.iterate_succ_apply, getNextEntry, round, if_neg (by rw [hentry]; exact Bool.false_ne_true),
          hcopy] at h
        exact ih h

/-- The loop halts, within as many rounds as there are entries, exactly if no metadata is reached. -/
theorem halts_iff (refuses : List Str → Option Throwable) (destDir : List Str) (fs : FileSystem) (stream : ZipStream) :
    (∃ n ≤ stream.length, ((round refuses destDir)^[n] (getNextEntry fs stream)).Halted) ↔
      MetadataUnreached refuses destDir fs stream := by
  constructor
  · intro h
    obtain ⟨n, -, hhalted⟩ := h
    exact metadataUnreached_of_halted hhalted
  · intro h
    exact ⟨_, le_rfl, halted_of_metadataUnreached h⟩

/-! An archive that was packed with metadata -/

def modelEntry : ZipEntry := ⟨"encoder.ort", [1, 2, 3], none⟩

def metadataEntry : ZipEntry := ⟨"__MACOSX/._encoder.ort", [0], none⟩

/-- After any number of rounds, the first entry is still the one at hand. -/
theorem metadata_never_ends :
    (∀ n, (round (fun _ ↦ none) ["m".toList])^[n] (getNextEntry .empty [.ok metadataEntry, .ok modelEntry]) =
      .at metadataEntry [.ok modelEntry] .empty) ∧
    ¬∃ n ≤ 2, ((round (fun _ ↦ none) ["m".toList])^[n]
      (getNextEntry .empty [.ok metadataEntry, .ok modelEntry])).Halted := by
  have hstays (n : ℕ) :
      (round (fun _ ↦ none) ["m".toList])^[n] (getNextEntry .empty [.ok metadataEntry, .ok modelEntry]) =
        .at metadataEntry [.ok modelEntry] .empty := iterate_round_metadata rfl n
  refine ⟨hstays, fun h ↦ ?_⟩
  obtain ⟨n, -, hhalted⟩ := h
  rwa [hstays] at hhalted

end Aigentik.ManageASRViewModel
