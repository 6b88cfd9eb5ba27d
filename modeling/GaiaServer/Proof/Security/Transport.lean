import GaiaServer.Framework.JsonStable
import GaiaServer.Proof.Security.Signatures

/-!
# A signed payload, sent as JSON

The canonical form sorts keys before it makes them strings, so it is not stable: a
dictionary of numbers comes back with its keys as strings, which are sorted as such.
An artifact survives exactly if the texts of the numbers are in the order of the
numbers, in every dictionary of the payload (`survives_iff`).
-/

namespace Gaia.Security

open ArtifactSigner

variable {H : Hashes} {s s' : ArtifactSigner} {a : SignedArtifact} {reprFloat : String → String}

/-- `json.loads(json.dumps(payload, sort_keys=True, default=str))`, where `reprFloat`
is `repr(float(literal))`. -/
def transported (reprFloat : String → String) (payload : PyVal) : Option PyVal :=
  (jsonDumps { sortKeys := true, defaultStr := true } payload).toOption.bind (Json.loads reprFloat)

/-- With its payload transported, the artifact has the bytes that were signed, and
every signer gives it the verdict that it gives the original. -/
def SurvivesTransport (reprFloat : String → String) (a : SignedArtifact) : Prop :=
  ∃ v, transported reprFloat a.payload = some v ∧ canonical v = canonical a.payload ∧
    ∀ (s : ArtifactSigner) (H : Hashes), s.verify H { a with payload := v } = s.verify H a

/-- The separators of the canonical form. -/
theorem separators_canonical : Json.Separators { sortKeys := true, defaultStr := true } :=
  have hblank : ∀ c ∈ [' '], Json.isWs c = true := List.forall_mem_singleton.mpr rfl
  ⟨⟨[' '], rfl, hblank⟩, ⟨[' '], rfl, hblank⟩⟩

/-- `verify` looks at the payload through its canonical form. -/
theorem verify_congr {v : PyVal} (hv : canonical v = canonical a.payload) :
    s.verify H { a with payload := v } = s.verify H a := by
  rw [verify, verify, hv]

theorem canonical_eq_ok {payload : PyVal} {c : Bytes} (h : canonical payload = .ok c) :
    ∃ text, Json.dumps { sortKeys := true, defaultStr := true } payload = .ok text ∧
      c = encode text := by
  rw [canonical, jsonDumps] at h
  cases ht : Json.dumps { sortKeys := true, defaultStr := true } payload with
  | error e =>
    rw [ht] at h
    cases h
  | ok text =>
    rw [ht] at h
    exact ⟨text, rfl, (Except.ok.inj h).symm⟩

/-- A signed artifact survives exactly if, in every dictionary of its payload, numbers
and their texts are in the same order. -/
theorem survives_iff {kind : String} {payload : PyVal} {now : Rat}
    (hs : s.sign H kind payload now = .ok (a, s')) (hw : a.payload.WellFormed reprFloat) :
    SurvivesTransport reprFloat a ↔ a.payload.InOrder := by
  obtain ⟨-, -, -, c, hc, -⟩ := sign_spec hs
  obtain ⟨text, htext, -⟩ := canonical_eq_ok hc
  obtain ⟨v, text', hload, hdump, hiff⟩ := Json.dumps_loads_iff separators_canonical rfl hw htext
  have htransport : transported reprFloat a.payload = some v := by
    rw [transported, jsonDumps, htext]
    exact hload
  have hcanonical : canonical v = canonical a.payload ↔ text' = text := by
    rw [canonical, canonical, jsonDumps, jsonDumps, htext, hdump]
    exact (iff_of_eq (Except.ok.injEq _ _)).trans encode_inj
  rw [← hiff, ← hcanonical]
  constructor
  · intro ⟨v', hv', hsame, _⟩
    obtain rfl := Option.some.inj (htransport.symm.trans hv')
    exact hsame
  · exact fun hsame => ⟨v, htransport, hsame, fun s H => verify_congr hsame⟩

/-- What is decoded is the value of the payload's tree. -/
theorem transported_eq {payload : PyVal} {t : JsonTree} (hw : payload.WellFormed reprFloat)
    (ht : Json.tree { sortKeys := true, defaultStr := true } payload = .ok t) :
    transported reprFloat payload = some (t.value reprFloat) := by
  rw [transported, jsonDumps, Json.dumps, Json.text_eq, ht]
  exact Json.loads_print separators_canonical (Json.tree_encoded hw ht)

/-! ## Layers by number -/

/-- The scores of two layers, by their numbers. -/
def layers (m n : Int) : PyVal :=
  .dict [(.str "layers", .dict [(.int m, .float "0.5"), (.int n, .float "0.25")])]

theorem layers_wellFormed {m n : Int} (h : m ≠ n) : (layers m n).WellFormed id := by
  have hhalf : Json.FloatRepr id "0.5" := .finite ⟨[], ['0'], ['.', '5'], [], rfl, .inl rfl, .zero,
    .digits ⟨by decide, List.forall_mem_singleton.mpr rfl⟩, .none, by decide⟩ rfl
  have hquarter : Json.FloatRepr id "0.25" := .finite ⟨[], ['0'], ['.', '2', '5'], [], rfl,
    .inl rfl, .zero, .digits ⟨by decide, List.forall_mem_cons.mpr
      ⟨rfl, List.forall_mem_singleton.mpr rfl⟩⟩, .none, by decide⟩ rfl
  simp [layers, PyVal.wellFormed_dict, PyVal.wellFormed_float, hhalf, hquarter, PyKey.Differ,
    PyKey.num?, h]

theorem layers_inOrder {m n : Int} (h : m < n) :
    (layers m n).InOrder ↔ Json.TextLt (.int m) (.int n) := by
  have hfloat : ∀ r, PyVal.InOrder (.float r) := fun r _ hw => by cases hw
  have hstr : ∀ s, ¬ (PyKey.str s).NumLt (.str s) := fun s ⟨_, _, hq, _⟩ => by cases hq
  simp [layers, PyVal.inOrder_dict, Json.KeysInOrder, Json.numLt_int, hfloat, hstr, h, h.le]

/-- The forms of the scores, first of layers 1 and 2, then of layers 2 and 10, and of
these once their numbers are strings. -/
def layersCanonical : Bytes := encode "\x7b\"layers\": \x7b\"1\": 0.5, \"2\": 0.25\x7d\x7d"
def swappingCanonical : Bytes := encode "\x7b\"layers\": \x7b\"2\": 0.5, \"10\": 0.25\x7d\x7d"
def swappedCanonical : Bytes := encode "\x7b\"layers\": \x7b\"10\": 0.25, \"2\": 0.5\x7d\x7d"

/-- The hashes of these forms, the tags under 32 bytes `1`. -/
def layersHashes : Hashes where
  sha256 := fun m =>
    if m = layersCanonical then
      [74, 88, 240, 176, 8, 45, 212, 77, 96, 244, 9, 87, 7, 225, 20, 51, 77, 50, 240, 179, 234, 178,
        176, 47, 35, 145, 189, 189, 127, 208, 142, 46]
    else if m = swappingCanonical then
      [63, 150, 160, 208, 118, 103, 158, 251, 152, 217, 13, 230, 76, 15, 210, 153, 160, 248, 52,
        152, 111, 212, 206, 157, 87, 79, 187, 237, 203, 195, 250, 167]
    else if m = swappedCanonical then
      [43, 63, 182, 98, 215, 140, 121, 205, 79, 123, 229, 1, 107, 65, 210, 108, 223, 131, 126, 253,
        136, 198, 78, 118, 107, 222, 219, 223, 162, 154, 248, 141]
    else []
  hmac := fun _ m =>
    if m = layersCanonical then
      [152, 93, 103, 189, 85, 112, 45, 187, 44, 153, 10, 242, 254, 214, 9, 132, 44, 74, 137, 100,
        78, 92, 213, 232, 245, 220, 51, 110, 15, 172, 70, 89]
    else if m = swappingCanonical then
      [240, 64, 146, 40, 137, 251, 154, 251, 94, 84, 154, 215, 29, 47, 25, 144, 160, 209, 184, 15,
        165, 35, 127, 128, 160, 173, 187, 203, 96, 231, 68, 167]
    else if m = swappedCanonical then
      [234, 226, 117, 121, 27, 139, 150, 61, 49, 55, 203, 75, 205, 40, 205, 32, 121, 82, 103, 2, 29,
        150, 86, 180, 184, 135, 235, 40, 172, 126, 250, 180]
    else []

/-- The artifact that a signer whose keys are 32 bytes `1` makes of a payload. -/
def scored (payload : PyVal) (c : Bytes) : SignedArtifact where
  artifactKind := "consciousness_snapshot"
  payloadDigest := hexdigest (layersHashes.sha256 c)
  payload := payload
  signature := layersHashes.hmac [] c
  algorithm := "ML-DSA-65"
  signerId := ""
  signedAt := 0
  sequence := 1

theorem scored_sign {payload : PyVal} {c : Bytes} (hc : canonical payload = .ok c) :
    checkpointSigner.sign layersHashes "consciousness_snapshot" payload 0 =
      .ok (scored payload c, checkpointSigned) := by
  rw [sign, hc]
  rfl

/-- The scores of layers 1 and 2 survive. -/
theorem layers_survive : SurvivesTransport id (scored (layers 1 2) layersCanonical) :=
  (survives_iff (scored_sign (by decide +kernel)) (layers_wellFormed (by decide))).mpr
    ((layers_inOrder (by decide)).mpr ⟨"1", "2", rfl, rfl, by decide⟩)

/-- The scores of layers 2 and 10, sent as JSON. -/
def swapped : PyVal :=
  .dict [(.str "layers", .dict [(.str "2", .float "0.5"), (.str "10", .float "0.25")])]

/-- The scores of layers 2 and 10 do not: with the numbers made strings, layer 10 comes
first, and the artifact, which was accepted, is rejected. -/
theorem layers_rejected :
    checkpointSigner.sign layersHashes "consciousness_snapshot" (layers 2 10) 0 =
      .ok (scored (layers 2 10) swappingCanonical, checkpointSigned) ∧
    (layers 2 10).WellFormed id ∧
    transported id (layers 2 10) = some swapped ∧
    canonical (layers 2 10) = .ok swappingCanonical ∧ canonical swapped = .ok swappedCanonical ∧
    checkpointSigned.verify layersHashes (scored (layers 2 10) swappingCanonical) =
      .ok ⟨true, "ML-DSA-65-stub", ""⟩ ∧
    checkpointSigned.verify layersHashes (scored swapped swappingCanonical) =
      .ok ⟨false, "ML-DSA-65", "payload digest mismatch"⟩ ∧
    ¬ SurvivesTransport id (scored (layers 2 10) swappingCanonical) := by
  have hc : canonical (layers 2 10) = .ok swappingCanonical := by decide +kernel
  have hc' : canonical swapped = .ok swappedCanonical := by decide +kernel
  have ht : transported id (layers 2 10) = some swapped :=
    transported_eq (t := .obj [("layers", .obj [("2", .float "0.5"), ("10", .float "0.25")])])
      (layers_wellFormed (by decide)) rfl
  refine ⟨scored_sign hc, layers_wellFormed (by decide), ht, hc, hc', by decide +kernel,
    by decide +kernel, fun h => ?_⟩
  obtain ⟨v, hv, hsame, -⟩ := h
  obtain rfl := Option.some.inj (ht.symm.trans hv)
  have hne : swappedCanonical ≠ swappingCanonical := by decide +kernel
  exact hne (Except.ok.inj (hc'.symm.trans (hsame.trans hc)))

end Gaia.Security
