import Maat.Prove.Driver

/-!
# What the prover leaves on disk

Whatever fails and wherever a run is cut off, a `proof_<id>.json` on disk is the whole JSON of a
proof that verified, and the proof is beside it.
-/

namespace Maat.Prove

open Js Json
open Guest (ProofOutput)

/-! ## Paths -/

theorem tmp_ne_of_last {path path' : Str} {c : Char} (hlast : path.getLast? = some c)
    (hc : c ≠ 'p') : path ≠ tmp path' := by
  rintro rfl
  rw [tmp, List.getLast?_append_of_ne_nil _ (by decide)] at hlast
  exact hc (Option.some.inj hlast).symm

theorem getLast?_jsonPath (mode idHex : Str) : (jsonPath mode idHex).getLast? = some 'n' := by
  rw [jsonPath, List.getLast?_append_of_ne_nil _ (by decide)]
  rfl

theorem getLast?_binPath (idHex : Str) : (binPath idHex).getLast? = some 'n' := by
  rw [binPath, List.getLast?_append_of_ne_nil _ (by decide)]
  rfl

theorem jsonPath_ne_tmp (mode idHex path : Str) : jsonPath mode idHex ≠ tmp path :=
  tmp_ne_of_last (getLast?_jsonPath mode idHex) (by decide)

theorem binPath_ne_tmp (idHex path : Str) : binPath idHex ≠ tmp path :=
  tmp_ne_of_last (getLast?_binPath idHex) (by decide)

theorem jsonPath_ne_binPath (mode idHex idHex' : Str) : jsonPath mode idHex ≠ binPath idHex' := by
  intro h
  have hsecond := congrArg (fun path => path.reverse[1]?) h
  simp [jsonPath, binPath] at hsecond

theorem jsonPath_inj {idHex idHex' : Str}
    (h : jsonPath "prove".toList idHex = jsonPath "prove".toList idHex') : idHex = idHex' := by
  simp only [jsonPath, if_true] at h
  exact List.append_cancel_left (List.append_cancel_right h)

theorem binPath_inj {idHex idHex' : Str} (h : binPath idHex = binPath idHex') :
    idHex = idHex' :=
  List.append_cancel_left (List.append_cancel_right h)

/-- Only a proof's JSON is named as one. -/
theorem jsonPath_mode {mode idHex idHex' : Str}
    (h : jsonPath "prove".toList idHex = jsonPath mode idHex') : mode = "prove".toList := by
  by_contra hmode
  simp only [jsonPath, if_true, if_neg hmode] at h
  exact absurd (congrArg List.head? h) (by simp)

/-! ## The invariant -/

variable {S : Sdk} {disk disk' : Disk S} {vkey idHex : Str} {args : Args}

/-- A proof for the intent has verified and is on disk. -/
def HasProof (disk : Disk S) (idHex : Str) : Prop :=
  ∃ vkey proof, disk (binPath idHex) = some (.proof proof) ∧ S.verify vkey proof = true ∧
    intentIdHex (S.publicValues proof) = idHex

/-- The text is the JSON of a proof for the intent that has verified. -/
def ProvedText (S : Sdk) (idHex text : Str) : Prop :=
  ∃ vkey args proof, S.verify vkey proof = true ∧ intentIdHex (S.publicValues proof) = idHex ∧
    text = jsonText vkey args (S.publicValues proof) "prove".toList

/-- Every proof's JSON is whole and true, and its proof is there. -/
def Disk.Vouched (disk : Disk S) : Prop :=
  ∀ idHex file, disk (jsonPath "prove".toList idHex) = some file →
    HasProof disk idHex ∧ ∃ text, file = .text text ∧ ProvedText S idHex text

/-- What the command has made sure of where it waits. -/
def PointVouched (vkey : Str) (args : Args) (disk : Disk S) : Point S → Prop
  | .savingProof proof => S.verify vkey proof = true
  | .renamingProof proof => S.verify vkey proof = true ∧
    disk (tmp (binPath (intentIdHex (S.publicValues proof)))) = some (.proof proof)
  | .writingJson output mode => mode = "prove".toList →
    HasProof disk (intentIdHex output) ∧
      ∃ proof, S.verify vkey proof = true ∧ S.publicValues proof = output
  | .renamingJson output mode => mode = "prove".toList →
    (HasProof disk (intentIdHex output) ∧
      ∃ proof, S.verify vkey proof = true ∧ S.publicValues proof = output) ∧
    disk (tmp (jsonPath mode (intentIdHex output))) = some (.text (jsonText vkey args output mode))
  | _ => True

def NextVouched (vkey : Str) (args : Args) (disk : Disk S) : Next S → Prop
  | .await point => PointVouched vkey args disk point
  | .exit _ => True

theorem HasProof.frame (h : HasProof disk idHex)
    (hsame : disk' (binPath idHex) = disk (binPath idHex)) : HasProof disk' idHex := by
  obtain ⟨vkey, proof, hproof, hverify, hid⟩ := h
  exact ⟨vkey, proof, hsame.trans hproof, hverify, hid⟩

/-- Only the finished files matter. -/
theorem Disk.Vouched.frame (h : disk.Vouched)
    (hjson : ∀ idHex, disk' (jsonPath "prove".toList idHex) = disk (jsonPath "prove".toList idHex))
    (hbin : ∀ idHex, HasProof disk idHex → HasProof disk' idHex) : disk'.Vouched := by
  intro idHex file hfile
  rw [hjson] at hfile
  obtain ⟨hproof, htext⟩ := h idHex file hfile
  exact ⟨hbin idHex hproof, htext⟩

/-! ## Writing and renaming -/

theorem Disk.write_of_ne {path path' : Str} (disk : Disk S) (file : File S) (h : path' ≠ path) :
    disk.write path file path' = disk path' :=
  Function.update_of_ne h _ _

theorem Disk.rename_target (disk : Disk S) {source target : Str} (h : target ≠ source) :
    disk.rename source target target = disk source := by
  rw [Disk.rename, Function.update_of_ne h, Function.update_self]

theorem Disk.rename_of_ne {path : Str} (disk : Disk S) {source target : Str} (hs : path ≠ source)
    (ht : path ≠ target) : disk.rename source target path = disk path := by
  rw [Disk.rename, Function.update_of_ne hs, Function.update_of_ne ht]

/-- A file that is not finished yet is nobody's. -/
theorem Disk.Vouched.write_tmp (h : disk.Vouched) (path : Str) (file : File S) :
    (disk.write (tmp path) file).Vouched := by
  refine h.frame (fun idHex => disk.write_of_ne file (jsonPath_ne_tmp _ _ _)) fun idHex hproof => ?_
  exact hproof.frame (disk.write_of_ne file (binPath_ne_tmp _ _))

/-- A proof moves into its place. -/
theorem hasProof_rename {proof : S.Proof} (hverify : S.verify vkey proof = true)
    (htmp : disk (tmp (binPath (intentIdHex (S.publicValues proof)))) = some (.proof proof))
    (idHex : Str) (h : HasProof disk idHex ∨ idHex = intentIdHex (S.publicValues proof)) :
    HasProof (disk.rename (tmp (binPath (intentIdHex (S.publicValues proof))))
      (binPath (intentIdHex (S.publicValues proof)))) idHex := by
  by_cases hid : idHex = intentIdHex (S.publicValues proof)
  · subst hid
    exact ⟨vkey, proof, (disk.rename_target (binPath_ne_tmp _ _)).trans htmp, hverify, rfl⟩
  · have hold : HasProof disk idHex := h.resolve_right hid
    refine hold.frame (disk.rename_of_ne (binPath_ne_tmp _ _) ?_)
    exact fun hsame => hid (binPath_inj hsame)

theorem Disk.Vouched.rename_bin (h : disk.Vouched) {proof : S.Proof}
    (hverify : S.verify vkey proof = true)
    (htmp : disk (tmp (binPath (intentIdHex (S.publicValues proof)))) = some (.proof proof)) :
    (disk.rename (tmp (binPath (intentIdHex (S.publicValues proof))))
      (binPath (intentIdHex (S.publicValues proof)))).Vouched := by
  refine h.frame (fun idHex => ?_) fun idHex hproof =>
    hasProof_rename hverify htmp idHex (.inl hproof)
  exact disk.rename_of_ne (jsonPath_ne_tmp _ _ _) (jsonPath_ne_binPath _ _ _)

/-- The JSON moves into its place. -/
theorem Disk.Vouched.rename_json (h : disk.Vouched) {output : ProofOutput} {mode : Str}
    (hpoint : PointVouched vkey args disk (.renamingJson output mode)) :
    (disk.rename (tmp (jsonPath mode (intentIdHex output)))
      (jsonPath mode (intentIdHex output))).Vouched := by
  have hbin : ∀ idHex, HasProof disk idHex → HasProof (disk.rename
      (tmp (jsonPath mode (intentIdHex output))) (jsonPath mode (intentIdHex output))) idHex := by
    intro idHex hproof
    refine hproof.frame (disk.rename_of_ne (binPath_ne_tmp _ _) ?_)
    exact (jsonPath_ne_binPath _ _ _).symm
  intro idHex file hfile
  by_cases hpath : jsonPath "prove".toList idHex = jsonPath mode (intentIdHex output)
  · obtain rfl := jsonPath_mode hpath
    obtain rfl := jsonPath_inj hpath
    obtain ⟨⟨hproof, proof, hverify, rfl⟩, htmp⟩ := hpoint rfl
    rw [disk.rename_target (jsonPath_ne_tmp _ _ _), htmp] at hfile
    obtain rfl := Option.some.inj hfile
    exact ⟨hbin _ hproof, _, rfl, vkey, args, proof, hverify, rfl, rfl⟩
  · rw [disk.rename_of_ne (jsonPath_ne_tmp _ _ _) hpath] at hfile
    obtain ⟨hproof, htext⟩ := h idHex file hfile
    exact ⟨hbin _ hproof, htext⟩

/-! ## One answer -/

/-- Whatever is answered, what is on disk stays vouched for. -/
theorem resume_vouched {L : Libraries} {dataOffset : List UInt8 → Nat → Option Nat}
    {point : Point S} {reply : Reply S} {next : Next S} (h : disk.Vouched)
    (hpoint : PointVouched vkey args disk point)
    (hresume : resume L dataOffset vkey args disk point reply = some (disk', next)) :
    disk'.Vouched ∧ NextVouched vkey args disk' next := by
  unfold resume at hresume
  split at hresume
  case h_1 => cases hresume; exact ⟨h, trivial⟩
  case h_2 =>
    split at hresume
    · cases hresume
      exact ⟨h, trivial⟩
    · split at hresume <;> cases hresume <;> exact ⟨h, trivial⟩
  case h_3 => cases hresume; exact ⟨h, trivial⟩
  case h_4 =>
    cases hresume
    refine ⟨h, ?_⟩
    dsimp only [NextVouched]
    split <;> trivial
  case h_5 => cases hresume; exact ⟨h, trivial⟩
  case h_6 =>
    split at hresume <;> cases hresume
    · exact ⟨h, trivial⟩
    · exact ⟨h, fun hmode => absurd hmode (by decide)⟩
  case h_7 => cases hresume; exact ⟨h, trivial⟩
  case h_8 =>
    split at hresume <;> cases hresume
    · next hverify => exact ⟨h, hverify⟩
    · exact ⟨h, trivial⟩
  case h_9 => cases hresume; exact ⟨h, trivial⟩
  case h_10 proof =>
    cases hresume
    exact ⟨h.write_tmp _ _, hpoint, Function.update_self _ _ _⟩
  case h_11 => cases hresume; exact ⟨h, trivial⟩
  case h_12 proof =>
    cases hresume
    obtain ⟨hverify, htmp⟩ := hpoint
    refine ⟨h.rename_bin hverify htmp, fun _ => ⟨?_, proof, hverify, rfl⟩⟩
    exact hasProof_rename hverify htmp _ (.inr rfl)
  case h_13 => cases hresume; exact ⟨h, trivial⟩
  case h_14 output mode =>
    cases hresume
    refine ⟨h.write_tmp _ _, fun hmode => ?_⟩
    obtain ⟨hproof, hverified⟩ := hpoint hmode
    have hbin := disk.write_of_ne (.text (jsonText vkey args output mode))
      (binPath_ne_tmp (intentIdHex output) (jsonPath mode (intentIdHex output)))
    exact ⟨⟨hproof.frame hbin, hverified⟩, Function.update_self _ _ _⟩
  case h_15 => cases hresume; exact ⟨h, trivial⟩
  case h_16 =>
    cases hresume
    exact ⟨h.rename_json hpoint, trivial⟩
  case h_17 => cases hresume

end Maat.Prove
