import Dante.Verification.Digest
import Dante.Verification.Qualified

/-! # Stale evidence

The inputs that are compared to find evidence stale are those that the fingerprint covers. -/

namespace Dante

open JsonText

/-! ## Inputs -/

/-- A field of a record, as it is dumped under a key, and when two records agree on it. -/
structure Input (σ : Type) where
  key : String
  dump : σ → Json
  same : σ → σ → Prop

namespace Input

variable {σ τ α : Type} {inputs : List (Input σ)} {input : Input σ} {valid : σ → Prop}
  {a b : σ} {above path : String}

/-- A field whose values are compared. -/
def of (key : String) (dump : α → Json) (field : σ → α) : Input σ where
  key := key
  dump a := dump (field a)
  same a b := field a = field b

/-- The input of a part. -/
def within (name : String) (part : τ → σ) (input : Input σ) : Input τ where
  key := name ++ "." ++ input.key
  dump a := input.dump (part a)
  same a b := input.same (part a) (part b)

/-- The object with the inputs. -/
def object (inputs : List (Input σ)) (a : σ) : Dict Json :=
  inputs.map fun input => (input.key, input.dump a)

/-- A value that is compared as a whole, and that tells all that is compared. -/
structure Leaf (valid : σ → Prop) (input : Input σ) : Prop where
  finite (a : σ) : finite (input.dump a) = true
  flat (a : σ) (fields : Dict Json) : input.dump a ≠ .obj fields
  same {a b : σ} : valid a → valid b → (input.dump a = input.dump b ↔ input.same a b)
  canonical {a b : σ} : canonical (input.dump a) = canonical (input.dump b) →
    input.dump a = input.dump b

theorem Leaf.symm (h : Leaf valid input) (ha : valid a) (hb : valid b) (hsame : input.same a b) :
    input.same b a :=
  (h.same hb ha).mp ((h.same ha hb).mpr hsame).symm

theorem object_keys (inputs : List (Input σ)) (a : σ) :
    (object inputs a).map Prod.fst = inputs.map Input.key := by
  simp [object]

theorem lookup_object (hdistinct : (inputs.map Input.key).Nodup) (hinput : input ∈ inputs) (a : σ) :
    (object inputs a).lookup input.key = some (input.dump a) := by
  rw [lookup_eq_some_iff_mem (by rwa [object_keys])]
  exact List.mem_map.mpr ⟨input, hinput, rfl⟩

/-- The paths at which two objects differ are those of their inputs. -/
theorem mem_differences (hdistinct : (inputs.map Input.key).Nodup) :
    path ∈ differences above (object inputs a) (object inputs b) ↔
      ∃ input ∈ inputs, path ∈ against (above ++ input.key) (input.dump a) (input.dump b) := by
  have hlookup {input : Input σ} (hinput : input ∈ inputs) (c : σ) := lookup_object hdistinct hinput c
  simp only [differences, merged, List.mem_flatMap, mem_unionKeys, object_keys, or_self]
  constructor
  · rintro ⟨key, hkey, hpath⟩
    obtain ⟨input, hinput, rfl⟩ := List.mem_map.mp hkey
    rw [lookup_againstFields, hlookup hinput, Option.map_some] at hpath
    simp only [getField, hlookup hinput, Option.getD_some] at hpath
    exact ⟨input, hinput, hpath⟩
  · rintro ⟨input, hinput, hpath⟩
    refine ⟨input.key, List.mem_map_of_mem hinput, ?_⟩
    rw [lookup_againstFields, hlookup hinput, Option.map_some]
    simpa only [getField, hlookup hinput, Option.getD_some] using hpath

/-- Leaves differ where the records do not agree on them. -/
theorem exists_against (hleaves : ∀ input ∈ inputs, Leaf valid input) (ha : valid a) (hb : valid b) :
    (∃ input ∈ inputs, path ∈ against (above ++ input.key) (input.dump a) (input.dump b)) ↔
      ∃ input ∈ inputs, path = above ++ input.key ∧ ¬ input.same a b := by
  refine exists_congr fun input => and_congr_right fun hinput => ?_
  have hleaf := hleaves input hinput
  rw [mem_against (hleaf.flat a) (hleaf.finite a), Ne, hleaf.same ha hb]

theorem mem_differences_leaves (hdistinct : (inputs.map Input.key).Nodup)
    (hleaves : ∀ input ∈ inputs, Leaf valid input) (ha : valid a) (hb : valid b) :
    path ∈ differences above (object inputs a) (object inputs b) ↔
      ∃ input ∈ inputs, path = above ++ input.key ∧ ¬ input.same a b := by
  rw [mem_differences hdistinct, exists_against hleaves ha hb]

theorem canonical_dump (hdistinct : (inputs.map Input.key).Nodup) (hinput : input ∈ inputs)
    (h : canonical (.obj (object inputs a)) = canonical (.obj (object inputs b))) :
    canonical (input.dump a) = canonical (input.dump b) := by
  have hkeys (c : σ) : ((object inputs c).map Prod.fst).Nodup := by rwa [object_keys]
  have hfield := lookup_canonical_eq (hkeys a) (hkeys b) h input.key
  rw [lookup_object hdistinct hinput, lookup_object hdistinct hinput, Option.map_some,
    Option.map_some, Option.some.injEq] at hfield
  exact hfield

/-- Leaves with one canonical form are equal. -/
theorem object_of_canonical (hdistinct : (inputs.map Input.key).Nodup)
    (hleaves : ∀ input ∈ inputs, Leaf valid input)
    (h : canonical (.obj (object inputs a)) = canonical (.obj (object inputs b))) :
    object inputs a = object inputs b := by
  refine List.map_congr_left fun input hinput => ?_
  rw [(hleaves input hinput).canonical (canonical_dump hdistinct hinput h)]

theorem finite_object (h : ∀ input ∈ inputs, JsonText.finite (input.dump a) = true) :
    JsonText.finite (.obj (object inputs a)) = true := by
  rw [JsonText.finite, finiteFields_iff]
  intro f hf
  obtain ⟨input, hinput, rfl⟩ := List.mem_map.mp hf
  exact h input hinput

/-- A dump of scalars that tells them apart. -/
structure Scalar (dump : α → Json) : Prop where
  injective : Function.Injective dump
  finite (a : α) : JsonText.finite (dump a) = true
  flat (a : α) (fields : Dict Json) : dump a ≠ .obj fields
  canonical (a : α) : JsonText.canonical (dump a) = dump a

theorem scalar_str : Scalar Json.str where
  injective _ _ h := Json.str.inj h
  finite _ := by simp [JsonText.finite]
  flat _ _ := Json.noConfusion
  canonical _ := by simp [JsonText.canonical]

theorem scalar_int : Scalar Json.int where
  injective _ _ h := Json.int.inj h
  finite _ := by simp [JsonText.finite]
  flat _ _ := Json.noConfusion
  canonical _ := by simp [JsonText.canonical]

theorem scalar_dumpOption : Scalar dumpOption where
  injective := dumpOption_injective
  finite a := by cases a <;> simp [dumpOption, JsonText.finite]
  flat := dumpOption_flat
  canonical a := by cases a <;> simp [dumpOption, JsonText.canonical]

theorem scalar_dumpInt : Scalar dumpInt where
  injective := dumpInt_injective
  finite a := by cases a <;> simp [dumpInt, JsonText.finite]
  flat := dumpInt_flat
  canonical a := by cases a <;> simp [dumpInt, JsonText.canonical]

theorem leaf_of {dump : α → Json} (h : Scalar dump) (key : String) (field : σ → α) :
    Leaf valid (of key dump field) where
  finite a := h.finite (field a)
  flat a := h.flat (field a)
  same _ _ := h.injective.eq_iff
  canonical hcanonical := by
    simpa only [of, h.canonical] using hcanonical

end Input

/-! ## GPUs -/

/-- The dump of the inventory, `null` when unprobed. -/
def dumpGPUs : Option (List GPUProfile) → Json
  | none => .null
  | some gpus => .arr (gpus.map GPUProfile.dump)

/-- Neither inventory was probed, or the same GPUs were found. -/
def SameGPUs : Option (List GPUProfile) → Option (List GPUProfile) → Prop :=
  Option.Rel List.Perm

theorem dumpGPUs_injective : Function.Injective dumpGPUs := by
  intro left right h
  exact gpus_of_dump h

theorem dumpGPUs_flat (gpus : Option (List GPUProfile)) (fields : Dict Json) :
    dumpGPUs gpus ≠ .obj fields := by
  cases gpus <;> simp [dumpGPUs]

theorem finite_gpu (gpu : GPUProfile) : finite gpu.dump = true := by
  simp [GPUProfile.dump, finite, finiteFields, Input.scalar_dumpInt.finite,
    Input.scalar_dumpOption.finite]

theorem finite_dumpGPUs (gpus : Option (List GPUProfile)) : finite (dumpGPUs gpus) = true := by
  cases gpus with
  | none => rfl
  | some gpus =>
      rw [dumpGPUs, finite]
      induction gpus with
      | nil => rfl
      | cons gpu rest ih => rw [List.map_cons, finiteItems, finite_gpu, ih]; rfl

theorem canonical_gpu {gpu other : GPUProfile} (h : canonical gpu.dump = canonical other.dump) :
    gpu = other := by
  have hfield := lookup_canonical_eq (by simp) (by simp) h
  have hslot := hfield "slot"
  have hvendor := hfield "vendor"
  have hname := hfield "name"
  have hvram := hfield "vram_bytes"
  have hcompute := hfield "compute_capability"
  have hdriver := hfield "driver_version"
  simp only [List.lookup_cons, String.reduceBEq, Option.map_some, Option.some.injEq,
    Input.scalar_str.canonical, Input.scalar_dumpInt.canonical, Input.scalar_dumpOption.canonical,
    Json.str.injEq, dumpInt_injective.eq_iff, dumpOption_injective.eq_iff] at *
  cases gpu
  cases other
  simp_all

theorem canonicalItems_gpus {left right : List GPUProfile}
    (h : canonicalItems (left.map GPUProfile.dump) = canonicalItems (right.map GPUProfile.dump)) :
    left = right := by
  induction left generalizing right with
  | nil =>
      cases right with
      | nil => rfl
      | cons gpu right => simp [canonicalItems] at h
  | cons gpu left ih =>
      cases right with
      | nil => simp [canonicalItems] at h
      | cons other right =>
          simp only [List.map_cons, canonicalItems, List.cons.injEq] at h
          rw [canonical_gpu h.1, ih h.2]

theorem canonical_dumpGPUs {left right : Option (List GPUProfile)}
    (h : canonical (dumpGPUs left) = canonical (dumpGPUs right)) : left = right := by
  cases left with
  | none =>
      cases right with
      | none => rfl
      | some right => simp [dumpGPUs, canonical] at h
  | some left =>
      cases right with
      | none => simp [dumpGPUs, canonical] at h
      | some right =>
          simp only [dumpGPUs, canonical, Json.arr.injEq] at h
          rw [canonicalItems_gpus h]

/-- The order in which GPUs are found plays no role, since no two have one slot. -/
theorem sortedGPUs_eq_iff {left right : List GPUProfile} (hleft : (left.map GPUProfile.slot).Nodup) :
    sortedGPUs left = sortedGPUs right ↔ left.Perm right := by
  have hsort (l : List GPUProfile) : (sortedGPUs l).Perm l := List.perm_insertionSort _ l
  have hpairwise (l : List GPUProfile) : (sortedGPUs l).Pairwise (fun a b => a.slot ≤ b.slot) :=
    haveI : Std.Total (fun a b : GPUProfile => a.slot ≤ b.slot) := ⟨fun a b => le_total a.slot b.slot⟩
    haveI : IsTrans GPUProfile (fun a b => a.slot ≤ b.slot) := ⟨fun _ _ _ => le_trans⟩
    List.pairwise_insertionSort _ l
  constructor
  · intro h
    exact (hsort left).symm.trans (h ▸ hsort right)
  · intro h
    have hsorted := ((hsort left).trans h).trans (hsort right).symm
    refine hsorted.eq_of_pairwise (fun a b ha hb hle hge => ?_) (hpairwise left) (hpairwise right)
    have ha' : a ∈ left := (hsort left).mem_iff.mp ha
    have hb' : b ∈ left := h.mem_iff.mpr ((hsort right).mem_iff.mp hb)
    exact List.inj_on_of_nodup_map hleft ha' hb' (le_antisymm hle hge)

theorem sameGPUs_iff {m n : MachineProfile} (hm : m.valid = true) :
    m.gpus.map sortedGPUs = n.gpus.map sortedGPUs ↔ SameGPUs m.gpus n.gpus := by
  have hslots (gpus : List GPUProfile) (hgpus : m.gpus = some gpus) :
      (gpus.map GPUProfile.slot).Nodup := by
    simp only [MachineProfile.valid, MachineProfile.consistentInventory, Bool.and_eq_true] at hm
    have hdistinct := hm.2.1.2
    rw [hgpus] at hdistinct
    exact of_decide_eq_true hdistinct
  cases hgpus : m.gpus with
  | none =>
      cases n.gpus with
      | none => simp [SameGPUs]
      | some right =>
          simp only [Option.map_none, Option.map_some, reduceCtorEq, false_iff]
          intro h
          cases h
  | some left =>
      cases n.gpus with
      | none =>
          simp only [Option.map_none, Option.map_some, reduceCtorEq, false_iff]
          intro h
          cases h
      | some right =>
          rw [Option.map_some, Option.map_some, Option.some.injEq, sortedGPUs_eq_iff (hslots left hgpus)]
          constructor
          · exact Option.Rel.some
          · intro h
            cases h with
            | some h => exact h

/-! ## The inputs of an identity -/

namespace MachineProfile

def inputs : List (Input MachineProfile) :=
  [.of "node_id" .str nodeId, .of "os" .str os, .of "os_version" .str osVersion,
    .of "architecture" .str architecture, .of "cpu" dumpOption cpu,
    .of "logical_cpus" dumpInt logicalCpus, .of "physical_cores" dumpInt physicalCores,
    .of "ram_bytes" dumpInt ramBytes,
    ⟨"gpus", fun m => dumpGPUs (m.gpus.map sortedGPUs), fun m n => SameGPUs m.gpus n.gpus⟩,
    .of "cuda_runtime" dumpOption cudaRuntime, .of "cuda_toolkit" dumpOption cudaToolkit,
    .of "storage_class" dumpOption storageClass,
    .of "storage_capacity_bytes" dumpInt storageCapacityBytes, .of "probe_version" .str probeVersion]

theorem identityData_eq (m : MachineProfile) : m.identityData = Input.object inputs m := rfl

theorem inputs_distinct : (inputs.map Input.key).Nodup := by
  simp [inputs, Input.of]

theorem inputs_leaf : ∀ input ∈ inputs, Input.Leaf (fun m => m.valid = true) input := by
  intro input hinput
  simp only [inputs, List.mem_cons, List.not_mem_nil, or_false] at hinput
  rcases hinput with rfl | rfl | rfl | rfl | rfl | rfl | rfl | rfl | rfl | rfl | rfl | rfl | rfl | rfl
  case inr.inr.inr.inr.inr.inr.inr.inr.inl =>
    refine ⟨fun m => finite_dumpGPUs _, fun m => dumpGPUs_flat _, fun hm _ => ?_, fun h => ?_⟩
    · rw [dumpGPUs_injective.eq_iff, sameGPUs_iff hm]
    · exact congrArg dumpGPUs (canonical_dumpGPUs h)
  all_goals first
    | exact Input.leaf_of Input.scalar_str _ _
    | exact Input.leaf_of Input.scalar_dumpOption _ _
    | exact Input.leaf_of Input.scalar_dumpInt _ _

/-- The same machine, whenever it was observed and however much storage was free. -/
def Agrees (m n : MachineProfile) : Prop :=
  m = { n with
      gpus := m.gpus, storageFreeBytes := m.storageFreeBytes, observedAt := m.observedAt } ∧
    SameGPUs m.gpus n.gpus

theorem agrees_iff {m n : MachineProfile} : m.Agrees n ↔ ∀ input ∈ inputs, input.same m n := by
  cases m
  cases n
  simp only [Agrees, inputs, Input.of, mk.injEq, List.forall_mem_cons, List.not_mem_nil,
    false_implies, implies_true, and_true, true_and]
  tauto

end MachineProfile

namespace RuntimeObservation

def inputs : List (Input RuntimeObservation) :=
  [.of "runtime_id" .str runtimeId, .of "runtime" .str runtime, .of "version" dumpOption version,
    .of "backend" dumpOption backend, .of "binary_sha256" dumpOption binarySha256,
    .of "configuration_sha256" dumpOption configurationSha256, .of "probe_version" .str probeVersion]

theorem identityData_eq (r : RuntimeObservation) : r.identityData = Input.object inputs r := rfl

theorem inputs_distinct : (inputs.map Input.key).Nodup := by
  simp [inputs, Input.of]

theorem inputs_leaf : ∀ input ∈ inputs, Input.Leaf (fun _ => True) input := by
  intro input hinput
  simp only [inputs, List.mem_cons, List.not_mem_nil, or_false] at hinput
  rcases hinput with rfl | rfl | rfl | rfl | rfl | rfl | rfl
  all_goals first
    | exact Input.leaf_of Input.scalar_str _ _
    | exact Input.leaf_of Input.scalar_dumpOption _ _

/-- The same runtime, whenever it was observed and whatever it reported of itself. -/
def Agrees (r t : RuntimeObservation) : Prop :=
  r = { t with
      capabilities := r.capabilities, modelInventory := r.modelInventory, observedAt := r.observedAt }

theorem agrees_iff {r t : RuntimeObservation} : r.Agrees t ↔ ∀ input ∈ inputs, input.same r t := by
  cases r
  cases t
  simp only [Agrees, inputs, Input.of, mk.injEq, List.forall_mem_cons, List.not_mem_nil,
    false_implies, implies_true, and_true, true_and]

end RuntimeObservation

namespace QualificationIdentity

/-- The inputs that are no part of the machine or the runtime. -/
def ownInputs : List (Input QualificationIdentity) :=
  [.of "schema_version" .int schemaVersion, .of "suite_version" .str suiteVersion,
    .of "model_id" .str modelId, .of "artifact_sha256" dumpOption artifactSha256,
    .of "artifact_kind" .str artifactKind, .of "quantization" dumpOption quantization,
    .of "context_tokens" dumpInt contextTokens,
    .of "configuration_sha256" dumpOption configurationSha256]

/-- Every input, under the path that names it. -/
def inputs : List (Input QualificationIdentity) :=
  ownInputs ++ MachineProfile.inputs.map (.within "machine" machine) ++
    RuntimeObservation.inputs.map (.within "runtime" runtime)

/-- The two parts, as they are dumped. -/
def parts : List (Input QualificationIdentity) :=
  [.of "machine" (fun m => .obj m.identityData) machine,
    .of "runtime" (fun r => .obj r.identityData) runtime]

theorem identityData_eq (i : QualificationIdentity) :
    i.identityData = Input.object (ownInputs ++ parts) i := rfl

theorem ownInputs_leaf : ∀ input ∈ ownInputs, Input.Leaf (fun _ => True) input := by
  intro input hinput
  simp only [ownInputs, List.mem_cons, List.not_mem_nil, or_false] at hinput
  rcases hinput with rfl | rfl | rfl | rfl | rfl | rfl | rfl | rfl
  all_goals first
    | exact Input.leaf_of Input.scalar_str _ _
    | exact Input.leaf_of Input.scalar_int _ _
    | exact Input.leaf_of Input.scalar_dumpOption _ _
    | exact Input.leaf_of Input.scalar_dumpInt _ _

/-- The same identity, up to what was observed and does not count. -/
def Agrees (i j : QualificationIdentity) : Prop :=
  i = { j with machine := i.machine, runtime := i.runtime } ∧ i.machine.Agrees j.machine ∧
    i.runtime.Agrees j.runtime

theorem agrees_iff {i j : QualificationIdentity} : i.Agrees j ↔ ∀ input ∈ inputs, input.same i j := by
  have hparts : (∀ input ∈ inputs, input.same i j) ↔ (∀ input ∈ ownInputs, input.same i j) ∧
      i.machine.Agrees j.machine ∧ i.runtime.Agrees j.runtime := by
    rw [MachineProfile.agrees_iff, RuntimeObservation.agrees_iff]
    simp only [inputs, List.forall_mem_append, List.forall_mem_map, Input.within, and_assoc]
  rw [hparts, Agrees]
  refine and_congr_left fun _ => ?_
  cases i
  cases j
  simp only [ownInputs, Input.of, mk.injEq, List.forall_mem_cons, List.not_mem_nil, false_implies,
    implies_true, and_true, true_and]

theorem inputs_distinct : ((ownInputs ++ parts).map Input.key).Nodup := by
  simp [ownInputs, parts, Input.of]

variable {i j : QualificationIdentity} {path : String}

theorem machine_valid (h : i.valid = true) : i.machine.valid = true := by
  simp only [valid, Bool.and_eq_true] at h
  exact h.1.1.1.1.1.1.1.2

theorem mem_machine (hi : i.valid = true) (hj : j.valid = true) :
    path ∈ against "machine" (.obj i.machine.identityData) (.obj j.machine.identityData) ↔
      ∃ input ∈ MachineProfile.inputs, path = "machine" ++ "." ++ input.key ∧
        ¬ input.same i.machine j.machine := by
  rw [against_obj, MachineProfile.identityData_eq, MachineProfile.identityData_eq]
  exact Input.mem_differences_leaves MachineProfile.inputs_distinct MachineProfile.inputs_leaf
    (machine_valid hi) (machine_valid hj)

theorem mem_runtime :
    path ∈ against "runtime" (.obj i.runtime.identityData) (.obj j.runtime.identityData) ↔
      ∃ input ∈ RuntimeObservation.inputs, path = "runtime" ++ "." ++ input.key ∧
        ¬ input.same i.runtime j.runtime := by
  rw [against_obj, RuntimeObservation.identityData_eq, RuntimeObservation.identityData_eq]
  exact Input.mem_differences_leaves RuntimeObservation.inputs_distinct
    RuntimeObservation.inputs_leaf trivial trivial

theorem mem_own :
    (∃ input ∈ ownInputs, path ∈ against ("" ++ input.key) (input.dump i) (input.dump j)) ↔
      ∃ input ∈ ownInputs, path = input.key ∧ ¬ input.same i j := by
  rw [Input.exists_against ownInputs_leaf trivial trivial]
  simp only [String.empty_append]

/-- The paths that are reported are those of the inputs that differ. -/
theorem mem_changedInputs (hi : i.valid = true) (hj : j.valid = true) :
    path ∈ changedInputs i j ↔ ∃ input ∈ inputs, path = input.key ∧ ¬ input.same i j := by
  rw [changedInputs, identityData_eq, identityData_eq, Input.mem_differences inputs_distinct]
  simp only [inputs, List.mem_append, or_and_right, exists_or, mem_own, List.mem_map,
    exists_exists_and_eq_and, or_assoc]
  refine or_congr_right ?_
  simp only [parts, Input.of, List.mem_cons, List.not_mem_nil, or_false, exists_eq_or_imp,
    exists_eq_left, String.empty_append]
  rw [mem_machine hi hj, mem_runtime]
  rfl

theorem changedInputs_eq_nil (hi : i.valid = true) (hj : j.valid = true) :
    changedInputs i j = [] ↔ i.Agrees j := by
  rw [List.eq_nil_iff_forall_not_mem, agrees_iff]
  simp only [mem_changedInputs hi hj, not_exists, not_and, not_not]
  constructor
  · intro h input hinput
    exact h input.key input hinput rfl
  · intro h path input hinput _
    exact h input hinput

theorem same_symm (hi : i.valid = true) (hj : j.valid = true) {input : Input QualificationIdentity}
    (hinput : input ∈ inputs) (h : input.same i j) : input.same j i := by
  simp only [inputs, List.mem_append, List.mem_map] at hinput
  rcases hinput with (hown | ⟨input, hmachine, rfl⟩) | ⟨input, hruntime, rfl⟩
  · exact (ownInputs_leaf input hown).symm trivial trivial h
  · exact (MachineProfile.inputs_leaf input hmachine).symm (machine_valid hi) (machine_valid hj) h
  · exact (RuntimeObservation.inputs_leaf input hruntime).symm trivial trivial h

theorem changedInputs_symm (hi : i.valid = true) (hj : j.valid = true)
    (h : path ∈ changedInputs i j) : path ∈ changedInputs j i := by
  obtain ⟨input, hinput, hpath, hdiffer⟩ := (mem_changedInputs hi hj).mp h
  refine (mem_changedInputs hj hi).mpr ⟨input, hinput, hpath, ?_⟩
  intro hsame
  exact hdiffer (same_symm hj hi hinput hsame)

/-! ## The fingerprint -/

theorem machine_of_canonical {m n : MachineProfile}
    (h : canonical (.obj m.identityData) = canonical (.obj n.identityData)) :
    m.identityData = n.identityData := by
  rw [MachineProfile.identityData_eq, MachineProfile.identityData_eq] at h ⊢
  exact Input.object_of_canonical MachineProfile.inputs_distinct MachineProfile.inputs_leaf h

theorem runtime_of_canonical {r t : RuntimeObservation}
    (h : canonical (.obj r.identityData) = canonical (.obj t.identityData)) :
    r.identityData = t.identityData := by
  rw [RuntimeObservation.identityData_eq, RuntimeObservation.identityData_eq] at h ⊢
  exact Input.object_of_canonical RuntimeObservation.inputs_distinct RuntimeObservation.inputs_leaf h

theorem identityData_of_canonical
    (h : canonical (.obj i.identityData) = canonical (.obj j.identityData)) :
    i.identityData = j.identityData := by
  rw [identityData_eq, identityData_eq] at h ⊢
  refine List.map_congr_left fun input hinput => ?_
  have hfield := Input.canonical_dump inputs_distinct hinput h
  rcases List.mem_append.mp hinput with hown | hpart
  · rw [(ownInputs_leaf input hown).canonical hfield]
  · simp only [parts, List.mem_cons, List.not_mem_nil, or_false] at hpart
    rcases hpart with rfl | rfl
    · simp only [Input.of] at hfield ⊢
      rw [machine_of_canonical hfield]
    · simp only [Input.of] at hfield ⊢
      rw [runtime_of_canonical hfield]

theorem finite_identityData (i : QualificationIdentity) : finite (.obj i.identityData) = true := by
  rw [identityData_eq]
  refine Input.finite_object fun input hinput => ?_
  rcases List.mem_append.mp hinput with hown | hpart
  · exact (ownInputs_leaf input hown).finite i
  · simp only [parts, List.mem_cons, List.not_mem_nil, or_false] at hpart
    rcases hpart with rfl | rfl
    · change finite (.obj i.machine.identityData) = true
      rw [MachineProfile.identityData_eq]
      exact Input.finite_object fun input hinput =>
        (MachineProfile.inputs_leaf input hinput).finite i.machine
    · change finite (.obj i.runtime.identityData) = true
      rw [RuntimeObservation.identityData_eq]
      exact Input.finite_object fun input hinput =>
        (RuntimeObservation.inputs_leaf input hinput).finite i.runtime

theorem agrees_self (i : QualificationIdentity) : i.Agrees i := by
  have hgpus : SameGPUs i.machine.gpus i.machine.gpus := by
    cases i.machine.gpus with
    | none => exact .none
    | some gpus => exact .some (.refl gpus)
  exact ⟨rfl, ⟨rfl, hgpus⟩, rfl⟩

/-- Nothing is reported exactly if the data of the fingerprints are equal. -/
theorem changedInputs_eq_nil_iff_data (hj : j.valid = true) :
    changedInputs i j = [] ↔ i.identityData = j.identityData := by
  constructor
  · exact identityData_eq_of_unchanged
  · intro h
    have hself : changedInputs j j = [] := (changedInputs_eq_nil hj hj).mpr (agrees_self j)
    rw [changedInputs, h]
    exact hself

end QualificationIdentity

section Fingerprints

variable [Platform] {i j : QualificationIdentity}

open QualificationIdentity in
/-- Evidence is stale exactly if the fingerprints differ, and that is if the identities disagree
on an input; the paths that are reported name such inputs. -/
theorem stale_iff_fingerprint (hi : i.valid = true) (hj : j.valid = true) :
    (∃ hash hash', i.fingerprint = .ok hash ∧ j.fingerprint = .ok hash' ∧
      (changedInputs i j = [] ↔ hash = hash')) ∧
    (changedInputs i j = [] ↔ i.Agrees j) ∧
    (∀ path, path ∈ changedInputs i j ↔ path ∈ changedInputs j i) ∧
    ∀ path ∈ changedInputs i j, ∃ input ∈ inputs, path = input.key ∧ ¬ input.same i j := by
  refine ⟨?_, changedInputs_eq_nil hi hj, ?_, fun path => (mem_changedInputs hi hj).mp⟩
  · have hfingerprint (k : QualificationIdentity) : ∃ hash, k.fingerprint = .ok hash := by
      rw [fingerprint, digest, if_pos (finite_identityData k)]
      exact ⟨_, rfl⟩
    obtain ⟨hash, hhash⟩ := hfingerprint i
    obtain ⟨hash', hhash'⟩ := hfingerprint j
    refine ⟨hash, hash', hhash, hhash', ?_⟩
    rw [changedInputs_eq_nil_iff_data hj]
    constructor
    · intro hdata
      rw [fingerprint, hdata] at hhash
      exact Except.ok.inj (hhash.symm.trans hhash')
    · rintro rfl
      exact identityData_of_canonical (digest_injective hhash hhash')
  · intro path
    exact ⟨changedInputs_symm hi hj, changedInputs_symm hj hi⟩

end Fingerprints

section Swapped

local instance swappedPlatform : Platform := .reference []

namespace Sample

/-- The sample identity with two GPUs, found in one of two orders. -/
def swapped (first second : String) (free : Option ℤ) : QualificationIdentity where
  __ := identity
  machine :=
    { node with
      gpus := some [⟨first, "vendor", "gpu", none, none, none⟩, ⟨second, "vendor", "gpu", none, none, none⟩]
      storageFreeBytes := free }

end Sample

open Sample in
theorem stale_iff_fingerprint_swapped :
    changedInputs (swapped "0" "1" none) (swapped "1" "0" (some 7)) = [] ∧
      (swapped "0" "1" none).fingerprint = (swapped "1" "0" (some 7)).fingerprint := by
  have hswapped := stale_iff_fingerprint (i := swapped "0" "1" none)
    (j := swapped "1" "0" (some 7)) (by decide) (by decide)
  obtain ⟨⟨hash, hash', hhash, hhash', hsame⟩, hagrees, -⟩ := hswapped
  have hnone := hagrees.mpr ⟨rfl, ⟨rfl, .some (.swap _ _ [])⟩, rfl⟩
  rw [hhash, hhash', hsame.mp hnone]
  exact ⟨hnone, rfl⟩

end Swapped

end Dante
