import GaiaServer.Framework.RelyGuarantee
import GaiaServer.Impl.Storage.Exists
import GaiaServer.Proof.Storage.CheckpointMap

/-!
# What `exists` tells of a checkpoint

Of all the strings there are, `exists` answers `True` to those that name an object that was
there or that a put has written: the bucket and the object's key, after any number of slashes
(`exists_iff_written`). A put writes the reference before the payload, and no object goes away
(`KeptInOrder`), so puts and gets can rely on it (`put_sat`, `get_sat`): once `exists` has answered
`True` for a payload, its checkpoint can be read (`exists_then_readable`).
-/

namespace Gaia.Storage

open World
open Pool (Traced after)
open Prog (Interference Sat)

variable {ι : Type} {core : Codec} {s : MinIOCheckpointStore} {w w' : World} {id : String}
  {refuses : String → String → Option Exc}

/-! ## Names of objects -/

/-- The bucket's name has no slash in it, and the client accepts names in it. -/
structure Addressable (s : MinIOCheckpointStore) (refuses : String → String → Option Exc) :
    Prop where
  nonempty : s.bucket ≠ ""
  noSlash : '/' ∉ s.bucket.toList
  accepted : ∀ name, name ≠ "" → refuses s.bucket name = none

theorem slash_mem_key (id : String) (part : Part) : '/' ∈ (Part.key id part).toList := by
  cases part <;> simp [Part.key, MinIOCheckpointStore.manifestKey, MinIOCheckpointStore.payloadKey]

theorem key_ne_empty (id : String) (part : Part) : Part.key id part ≠ "" := by
  intro h
  have hmem := slash_mem_key id part
  rw [h] at hmem
  cases hmem

/-- What is read as an object's place in the bucket. -/
theorem location_iff (hs : Addressable s refuses) {uri key : String} (hkey : '/' ∈ key.toList) :
    s.location uri = (s.bucket, key) ↔
      ∃ n, uri.toList = List.replicate n '/' ++ (s.bucket ++ "/" ++ key).toList := by
  have hwhole : (s.bucket ++ "/" ++ key).toList = s.bucket.toList ++ '/' :: key.toList := by
    simp
  obtain ⟨-, n, hn⟩ := lstrip_eq_iff.mp (rfl : lstrip '/' uri = lstrip '/' uri)
  constructor
  · intro h
    rw [MinIOCheckpointStore.location] at h
    split at h
    · rename_i bucket rest hsplit
      obtain ⟨rfl, rfl⟩ := Prod.mk.inj h
      rw [(splitOnce_eq_some.mp hsplit).2] at hn
      exact ⟨n, hn.trans (by rw [hwhole])⟩
    · rename_i first hsplit
      obtain ⟨-, rfl⟩ := Prod.mk.inj h
      exact absurd hkey (notMem_of_splitOnce hsplit)
  · rintro ⟨n, hn⟩
    have hstrip : lstrip '/' uri = s.bucket ++ "/" ++ key := by
      refine lstrip_eq_iff.mpr ⟨?_, n, hn⟩
      rw [hwhole]
      cases hb : s.bucket.toList with
      | nil => exact absurd (String.toList_eq_nil_iff.mp hb) hs.nonempty
      | cons d ds =>
        intro hd
        obtain rfl := Option.some.inj hd
        exact hs.noSlash (hb ▸ List.mem_cons_self ..)
    have hsplit := splitOnce_eq_some.mpr ⟨hs.noSlash, hwhole⟩
    rw [MinIOCheckpointStore.location, hstrip, hsplit]

theorem objectExists_iff {uri : String} : s.objectExists refuses uri w = .ok true ↔
    refuses (s.location uri).1 (s.location uri).2 = none ∧
      w.objects.contains (s.location uri) = true := by
  rw [MinIOCheckpointStore.objectExists, World.statObject]
  cases refuses (s.location uri).1 (s.location uri).2 with
  | some exc =>
    by_cases hexc : exc.cls = .s3Error <;> simp [hexc]
  | none => by_cases hc : w.objects.contains (s.location uri) = true <;> simp [hc]

/-! ## What has been written -/

theorem contains_put {bucket name : String} {data : Bytes} {place : String × String} :
    (handle (.putObject bucket name data) w).2.objects.contains place = true ↔
      w.objects.contains place = true ∨ place = (bucket, name) := by
  simp only [handle, Dict.contains, Dict.get?_set]
  by_cases hp : place = (bucket, name) <;> simp [hp]

/-- The objects there are were there, or have been written. -/
theorem contains_after {c : ι → CheckpointCall} {w₀ : World} {t : List (ι × StoreOp)}
    (ht : ∀ x ∈ t, Issues core s (c x.1) x.2) (place : String × String) :
    (after handle w₀ t).objects.contains place = true ↔ w₀.objects.contains place = true ∨
      ∃ id part, place = (s.bucket, Part.key id part) ∧ ∃ i, (i, part) ∈ writes s id t := by
  induction t using List.reverseRecOn with
  | nil => simp [after, writes]
  | append_singleton t x ih =>
    obtain ⟨i, op⟩ := x
    rw [List.forall_mem_append, List.forall_mem_singleton] at ht
    rw [Pool.after_concat]
    have hwrites : ∀ id, writes s id (t ++ [(i, op)]) =
        writes s id t ++ ((written s id op).map (i, ·)).toList := fun id => by
      rw [writes, List.filterMap_append, writes]
      cases hw : written s id op <;> simp [hw]
    simp only [hwrites]
    cases op with
    | getObject bucket name =>
      have hsame : (handle (.getObject bucket name) (after handle w₀ t)).2 = after handle w₀ t := by
        simp only [handle]
        split <;> rfl
      rw [hsame, ih ht.1]
      simp [written]
    | putObject bucket name data =>
      obtain ⟨rfl, ref, payload, p, -, rfl, -⟩ := ht.2
      rw [contains_put, ih ht.1, or_assoc]
      refine or_congr_right ⟨?_, ?_⟩
      · rintro (⟨id, part, hplace, j, hj⟩ | hplace)
        · exact ⟨id, part, hplace, j, List.mem_append_left _ hj⟩
        · refine ⟨ref.checkpointId, p, hplace, i, List.mem_append_right _ ?_⟩
          simp [written_put.mpr rfl]
      · rintro ⟨id, part, hplace, j, hj⟩
        rcases List.mem_append.mp hj with hj | hj
        · exact .inl ⟨id, part, hplace, j, hj⟩
        · simp only [Option.mem_toList, Option.map_eq_some_iff, Prod.mk.injEq] at hj
          obtain ⟨q, hq, -, rfl⟩ := hj
          exact .inr (by rw [hplace, written_put.mp hq])
    | _ => exact ht.2.elim

variable [DecidableEq ι]

/-- In whichever order puts and gets have written and read: `exists` answers `True` to what it
answered `True` to before, and to the names of the objects that have been written, in the
bucket, after any number of slashes. -/
theorem exists_iff_written {c : ι → CheckpointCall} {F : Exc → Prop} {w₀ : World}
    {t : List (ι × StoreOp)} {P : Pool StoreOp StoreRes Exc (Option (CheckpointRef × Bytes)) ι}
    (ht : Traced handle F (fun i => (c i).program core s) w₀ t P w) (hs : Addressable s refuses)
    (uri : String) : s.objectExists refuses uri w = .ok true ↔
      s.objectExists refuses uri w₀ = .ok true ∨ ∃ n id part,
        uri.toList = List.replicate n '/' ++ (s.bucket ++ "/" ++ Part.key id part).toList ∧
        ∃ i, (i, part) ∈ writes s id t := by
  have hissued := (ht.only fun i => program_only (c i)).2
  rw [objectExists_iff, objectExists_iff, ht.state_eq, contains_after hissued]
  constructor
  · rintro ⟨haccepted, h₀ | ⟨id, part, hplace, i, hi⟩⟩
    · exact .inl ⟨haccepted, h₀⟩
    · obtain ⟨n, hn⟩ := (location_iff hs (slash_mem_key id part)).mp hplace
      exact .inr ⟨n, id, part, hn, i, hi⟩
  · rintro (⟨haccepted, h₀⟩ | ⟨n, id, part, huri, i, hi⟩)
    · exact ⟨haccepted, .inl h₀⟩
    · have hplace := (location_iff hs (slash_mem_key id part)).mpr ⟨n, huri⟩
      rw [hplace]
      exact ⟨hs.accepted _ (key_ne_empty id part), .inr ⟨id, part, rfl, i, hi⟩⟩

/-! ## The reference before the payload -/

section

variable (c : ι → CheckpointCall) (core : Codec) (s : MinIOCheckpointStore) (id : String)

/-- The objects of the id were put under it, and the payload after a reference. -/
structure PutInOrder (w : World) : Prop where
  order : (storedPart s w id .payload).isSome → (storedPart s w id .manifest).isSome
  manifest : ∀ data, storedPart s w id .manifest = some data →
    ∃ ref, core.readCheckpointRef data = .ok ref ∧ ref.checkpointId = id ∧ ∃ i p, c i = .put ref p
  payload : ∀ payload, storedPart s w id .payload = some payload →
    ∃ i r, c i = .put r payload ∧ r.checkpointId = id

/-- Objects of the id stay, and have been put in order. -/
structure KeptInOrder (w w' : World) : Prop where
  stays : ∀ part, (storedPart s w id part).isSome → (storedPart s w' id part).isSome
  inOrder : PutInOrder c core s id w → PutInOrder c core s id w'

omit [DecidableEq ι] in
theorem kept_interference : Interference (KeptInOrder c core s id) where
  refl _ := ⟨fun _ h => h, fun h => h⟩
  trans h h' :=
    ⟨fun part hp => h'.stays part (h.stays part hp), fun hp => h'.inOrder (h.inOrder hp)⟩

variable {c core s id}

omit [DecidableEq ι] in
theorem PutInOrder.of_none (h : ∀ part, storedPart s w id part = none) :
    PutInOrder c core s id w where
  order hp := by
    rw [h] at hp
    cases hp
  manifest data hd := by
    rw [h] at hd
    cases hd
  payload data hd := by
    rw [h] at hd
    cases hd

omit [DecidableEq ι] in
theorem KeptInOrder.of_same (h : ∀ part, storedPart s w' id part = storedPart s w id part) :
    KeptInOrder c core s id w w' where
  stays part hp := by rwa [h]
  inOrder hw := ⟨by rw [h, h]; exact hw.order, by rw [h]; exact hw.manifest,
    by rw [h]; exact hw.payload⟩

theorem storedPart_put (id name : String) (data : Bytes) (part : Part) :
    storedPart s (handle (.putObject s.bucket name data) w).2 id part =
      if Part.key id part = name then some data else storedPart s w id part := by
  simp only [storedPart, handle, Dict.get?_set, Prod.mk.injEq, true_and]

omit [DecidableEq ι] in
/-- A reference is put. -/
theorem KeptInOrder.putManifest {i : ι} {ref : CheckpointRef} {payload : Bytes} {text : String}
    (hi : c i = .put ref payload) (hread : core.readCheckpointRef (encode text) = .ok ref)
    (w : World) : KeptInOrder c core s id w
      (handle (.putObject s.bucket (Part.key ref.checkpointId .manifest) (encode text)) w).2 := by
  by_cases hid : id = ref.checkpointId
  · subst hid
    have hm := storedPart_put (s := s) (w := w) ref.checkpointId
      (Part.key ref.checkpointId .manifest) (encode text)
    have hmanifest := hm .manifest
    have hpayload := hm .payload
    simp only [Part.key_inj, reduceCtorEq, and_false, if_true, if_false] at hmanifest hpayload
    refine ⟨fun part hp => ?_, fun hw => ⟨fun _ => by rw [hmanifest]; rfl, fun data hd => ?_, ?_⟩⟩
    · cases part with
      | manifest => rw [hmanifest]; rfl
      | payload => rwa [hpayload]
    · rw [hmanifest] at hd
      obtain rfl := Option.some.inj hd
      exact ⟨ref, hread, rfl, i, payload, hi⟩
    · rw [hpayload]
      exact hw.payload
  · refine .of_same fun part => ?_
    rw [storedPart_put, if_neg fun h => hid (Part.key_inj.mp h).1]

omit [DecidableEq ι] in
/-- A payload is put, after its reference. -/
theorem KeptInOrder.putPayload {i : ι} {ref : CheckpointRef} {payload : Bytes}
    (hi : c i = .put ref payload)
    (hafter : ref.checkpointId = id → (storedPart s w id .manifest).isSome) :
    KeptInOrder c core s id w
      (handle (.putObject s.bucket (Part.key ref.checkpointId .payload) payload) w).2 := by
  by_cases hid : id = ref.checkpointId
  · subst hid
    have hp := storedPart_put (s := s) (w := w) ref.checkpointId
      (Part.key ref.checkpointId .payload) payload
    have hmanifest := hp .manifest
    have hpayload := hp .payload
    simp only [Part.key_inj, reduceCtorEq, and_false, if_true, if_false] at hmanifest hpayload
    refine ⟨fun part hp => ?_, fun hw => ⟨fun _ => ?_, ?_, fun data hd => ?_⟩⟩
    · cases part with
      | manifest => rwa [hmanifest]
      | payload => rw [hpayload]; rfl
    · rw [hmanifest]
      exact hafter rfl
    · rw [hmanifest]
      exact hw.manifest
    · rw [hpayload] at hd
      obtain rfl := Option.some.inj hd
      exact ⟨i, ref, hi, rfl⟩
  · refine .of_same fun part => ?_
    rw [storedPart_put, if_neg fun h => hid (Part.key_inj.mp h).1]

variable {F : Exc → Prop}

omit [DecidableEq ι] in
/-- A put keeps to the order. -/
theorem put_sat {i : ι} {ref : CheckpointRef} {payload : Bytes} (hi : c i = .put ref payload)
    (hcodec : ReadsBack core ref) (w : World) :
    ((CheckpointCall.put ref payload).program core s).Sat handle F (KeptInOrder c core s id)
      (fun _ _ => True) w := by
  have hR := kept_interference c core s id
  refine Sat.bind (Q := fun _ _ => True) hR ?_ (fun _ _ _ _ _ => trivial) fun _ _ _ => trivial
  rw [MinIOCheckpointStore.putCheckpoint]
  cases hd : jsonDumps {} (.dict (core.checkpointRefWire ref)) with
  | error exc => exact fun _ _ => trivial
  | ok text =>
    refine Sat.perform_bind hR (fun w' _ => .putManifest hi (hcodec text hd) w')
      (fun w' _ _ _ => ?_) (fun _ _ _ _ _ _ => trivial) fun _ _ _ _ => trivial
    have hput : ref.checkpointId = id → (storedPart s (handle (.putObject s.bucket
        (Part.key ref.checkpointId .manifest) (encode text)) w').2 id .manifest).isSome := by
      rintro rfl
      rw [storedPart_put, if_pos rfl]
      rfl
    exact Sat.perform_bind hR
      (fun w'' hw'' => .putPayload hi fun hid => hw''.stays .manifest (hput hid))
      (fun _ _ _ _ _ _ => trivial) (fun _ _ _ _ _ _ => trivial) fun _ _ _ _ => trivial

theorem getObject_part (w : World) (id : String) (part : Part) :
    handle (.getObject s.bucket (Part.key id part)) w =
      ((storedPart s w id part).elim (.error ⟨.s3Error, "NoSuchKey"⟩) .ok, w) := by
  rw [handle, storedPart]
  cases w.objects.get? (s.bucket, Part.key id part) <;> rfl

theorem manifestKey_eq (id : String) :
    MinIOCheckpointStore.manifestKey id = Part.key id .manifest := rfl

theorem payloadKey_eq (id : String) : MinIOCheckpointStore.payloadKey id = Part.key id .payload :=
  rfl

theorem elim_eq_ok {α β : Type} {o : Option β} {e : α} {b : β}
    (h : o.elim (.error e) Except.ok = .ok b) : o = some b := by
  cases o with
  | none => cases h
  | some b' => exact congrArg some (Except.ok.inj h)

theorem elim_ne_error {α β : Type} {o : Option β} {e e' : α} (ho : o.isSome)
    (h : o.elim (.error e) Except.ok = .error e') : False := by
  cases o with
  | none => cases ho
  | some b => cases h

omit [DecidableEq ι] in
/-- A get changes nothing. -/
theorem get_sat_any (id' : String) (w : World) :
    ((CheckpointCall.get id').program core s).Sat handle F (KeptInOrder c core s id)
      (fun _ _ => True) w := by
  have hR := kept_interference c core s id
  have hstep : ∀ part w', KeptInOrder c core s id w'
      (handle (.getObject s.bucket (Part.key id' part)) w').2 := fun part w' => by
    rw [getObject_part]
    exact hR.refl w'
  refine Sat.bind (Q := fun _ _ => True) hR ?_ (fun _ _ _ _ _ => trivial) fun _ _ _ => trivial
  refine Sat.perform_bind hR (fun w' _ => hstep .manifest w') (fun w' data _ _ => ?_)
    (fun _ _ _ _ _ _ => trivial) fun _ _ _ _ => trivial
  refine Sat.bind (Q := fun _ _ => True) hR (Prog.sat_lift.mpr fun _ _ => trivial)
    (fun ref w'' _ => ?_) fun _ _ _ => trivial
  exact Sat.perform_bind hR (fun w' _ => hstep .payload w') (fun _ _ _ _ _ _ => trivial)
    (fun _ _ _ _ _ _ => trivial) fun _ _ _ _ => trivial

omit [DecidableEq ι] in
/-- A get of a checkpoint whose payload is there raises nothing but faults. -/
theorem get_sat (hw : PutInOrder c core s id w) (hp : (storedPart s w id .payload).isSome) :
    ((CheckpointCall.get id).program core s).Sat handle F (KeptInOrder c core s id)
      (fun r _ => ∀ e, r = .error e → F e) w := by
  have hR := kept_interference c core s id
  have hfault : ∀ {α : Type} (e : Exc), F e → ∀ e', (.error e : Except Exc α) = .error e' → F e' :=
    fun e he e' h => Except.error.inj h ▸ he
  have hreturned : ∀ {α : Type} (a : α) e, (.ok a : Except Exc α) = .error e → F e := by
    intro α a e h
    cases h
  refine Sat.bind (Q := fun r _ => ∀ e, r = .error e → F e) hR ?_ (fun _ _ _ _ _ => hreturned _)
    fun e _ he => hfault e (he e rfl)
  refine Sat.perform_bind hR (fun w' _ => ?_) (fun w' data hw' hdata => ?_)
    (fun w' e hw' he => ?_) fun _ e _ he => hfault e he
  · rw [manifestKey_eq, getObject_part]
    exact hR.refl w'
  · rw [manifestKey_eq, getObject_part] at hdata ⊢
    obtain ⟨ref, hread, -⟩ := (hw'.inOrder hw).manifest data (elim_eq_ok hdata)
    rw [hread]
    refine Sat.perform_bind hR (fun w'' _ => ?_) (fun _ _ _ _ _ _ => hreturned _)
      (fun w'' e hw'' he => ?_) fun _ e _ he => hfault e he
    · rw [payloadKey_eq, getObject_part]
      exact hR.refl w''
    · rw [payloadKey_eq, getObject_part] at he
      exact (elim_ne_error ((hR.trans hw' hw'').stays .payload hp) he).elim
  · rw [manifestKey_eq, getObject_part] at he
    have hm := (hw'.inOrder hw).order (hw'.stays .payload hp)
    exact (elim_ne_error hm he).elim

/-- Once `exists` has answered `True` for the payload of a checkpoint, the checkpoint can be read,
however often it is put again meanwhile: a get returns a reference and a payload that were put
under the id, and a get that starts now, among the other calls, raises nothing but faults. -/
theorem exists_then_readable {w₀ : World} {t u : List (ι × StoreOp)}
    {P P' : Pool StoreOp StoreRes Exc (Option (CheckpointRef × Bytes)) ι}
    (ht : Traced handle F (fun i => (c i).program core s) w₀ t P w)
    (h₀ : ∀ part, storedPart s w₀ id part = none)
    (hcodec : ∀ i ref payload, c i = .put ref payload → ReadsBack core ref)
    (hs : Addressable s refuses)
    (hexists : s.objectExists refuses
      (s.bucket ++ "/" ++ MinIOCheckpointStore.payloadKey id) w = .ok true)
    (hu : Traced handle F P w u P' w') :
    (∃ ref payload, (s.getCheckpoint core id).run handle w' = (.ok (ref, payload), w') ∧
      ref.checkpointId = id ∧ (∃ i p, c i = .put ref p) ∧
      ∃ i r, c i = .put r payload ∧ r.checkpointId = id) ∧
    ∀ g, c g = .get id → P g = (c g).program core s → ∀ e, P' g = .raise e → F e := by
  have hR := kept_interference c core s id
  have hany : ∀ i, ((c i).program core s).Sat handle F (KeptInOrder c core s id)
      (fun _ _ => True) w₀ := by
    intro i
    cases hi : c i with
    | put ref payload => exact put_sat hi (hcodec i ref payload hi) w₀
    | get id' => exact get_sat_any id' w₀
  obtain ⟨hkept, hP⟩ := ht.sat hR hany
  have hw : PutInOrder c core s id w := hkept.inOrder (.of_none h₀)
  have hpayload : (storedPart s w id .payload).isSome := by
    have hplace := (location_iff hs (slash_mem_key id .payload)).mpr ⟨0, rfl⟩
    rw [← payloadKey_eq] at hplace
    rw [objectExists_iff, hplace] at hexists
    exact hexists.2
  obtain ⟨hkept', -⟩ := hu.sat hR hP
  constructor
  · have hw' := hkept'.inOrder hw
    obtain ⟨payload, hp⟩ := Option.isSome_iff_exists.mp (hkept'.stays .payload hpayload)
    obtain ⟨data, hm⟩ := Option.isSome_iff_exists.mp (hw'.order (by rw [hp]; rfl))
    obtain ⟨ref, hread, hid, hput⟩ := hw'.manifest data hm
    refine ⟨ref, payload, ?_, hid, hput, hw'.payload payload hp⟩
    have hmanifest : w'.objects.get? (s.bucket, MinIOCheckpointStore.manifestKey id) = _ := hm
    have hpayload' : w'.objects.get? (s.bucket, MinIOCheckpointStore.payloadKey id) = _ := hp
    simp [MinIOCheckpointStore.getCheckpoint, Prog.run_bind, Prog.run_perform, handle, hmanifest,
      hread, hpayload']
  · intro g hg hstart e he
    have hall : ∀ i, (P i).Sat handle F (KeptInOrder c core s id)
        (fun r _ => i = g → ∀ e, r = .error e → F e) w := by
      intro i
      by_cases hi : i = g
      · subst hi
        rw [hstart, hg]
        exact (get_sat hw hpayload).mono fun r w hr _ => hr
      · exact (hP i).mono fun r w _ h => absurd h hi
    have hend := (hu.sat hR hall).2 g
    rw [he] at hend
    exact hend w' (hR.refl w') rfl e rfl

end

/-! ## The first version of a checkpoint -/

/-- What MinIO's client refuses here: empty names. -/
def emptyRefused (bucket name : String) : Option Exc :=
  if bucket = "" ∨ name = "" then some ⟨.valueError, "Object name cannot be empty"⟩ else none

theorem default_addressable : Addressable {} emptyRefused where
  nonempty := by decide
  noSlash := by decide
  accepted name hname := by
    have hbucket : ({} : MinIOCheckpointStore).bucket ≠ "" := by decide
    rw [emptyRefused, if_neg (by simp [hname, hbucket])]

theorem first_payload_exists : ({} : MinIOCheckpointStore).objectExists emptyRefused
    ("gaia-checkpoints" ++ "/" ++ MinIOCheckpointStore.payloadKey "c1") firstStored = .ok true := by
  have hplace := (location_iff default_addressable (slash_mem_key "c1" .payload)).mpr ⟨0, rfl⟩
  refine objectExists_iff.mpr ?_
  rw [← payloadKey_eq] at hplace
  rw [hplace]
  exact ⟨default_addressable.accepted _ (key_ne_empty "c1" .payload), by decide +kernel⟩

theorem first_payload_written : ∃ t P, Traced handle (fun _ => True) versionPool emptyStore t P
    firstStored ∧ ∃ id part i, (i, part) ∈ writes {} id t := by
  obtain ⟨t, hfirst⟩ := first_put
  refine ⟨t, _, hfirst, ?_⟩
  rcases (exists_iff_written hfirst default_addressable _).mp first_payload_exists with h | h
  · rw [objectExists_iff] at h
    cases h.2
  · obtain ⟨n, id, part, -, i, hi⟩ := h
    exact ⟨id, part, i, hi⟩

theorem first_version_readable : ∃ ref payload,
    (MinIOCheckpointStore.getCheckpoint versionCodec {} "c1").run handle firstStored =
      (.ok (ref, payload), firstStored) ∧ ref.checkpointId = "c1" := by
  obtain ⟨t, hfirst⟩ := first_put
  obtain ⟨ref, payload, hrun, hid, -⟩ := (exists_then_readable hfirst (fun _ => Dict.get?_empty _)
    (fun i ref payload hi text => version_codec_reads i ref payload text hi) default_addressable
    first_payload_exists .start).1
  exact ⟨ref, payload, hrun, hid⟩

end Gaia.Storage
