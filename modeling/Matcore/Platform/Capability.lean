import Matcore.Lib.Except

/-!
# CPU capability records, version 2

`cpu_capability_v2.h` and `validate_cpu_capabilities_v2` of `cpu_capability_v2.cpp`: what the
hardware, the operating system, the compiler, the implementation and the run-time validation each
say about every feature.
-/

namespace Matcore.Platform

open BitVec (twoPow)

/-- `outside` is a value that is none of the enumerators. -/
inductive ArchitectureKind where
  | unknown
  | x86_64
  | aarch64
  | outside
  deriving DecidableEq

inductive CpuFeatureV2 where
  | portableScalarF32
  | avx2
  | fma
  | avx512f
  | avx512dq
  | avx512bw
  | avx512vl
  | avx512vnni
  | avx512bf16
  | amxTile
  | amxBf16
  | amxInt8

def cpuFeatureOrder : List CpuFeatureV2 := [
  .portableScalarF32, .avx2, .fma, .avx512f, .avx512dq, .avx512bw, .avx512vl, .avx512vnni,
  .avx512bf16, .amxTile, .amxBf16, .amxInt8]

/-- The place of a feature in a mask. -/
def CpuFeatureV2.index : CpuFeatureV2 → ℕ
  | .portableScalarF32 => 0
  | .avx2 => 1
  | .fma => 2
  | .avx512f => 3
  | .avx512dq => 4
  | .avx512bw => 5
  | .avx512vl => 6
  | .avx512vnni => 7
  | .avx512bf16 => 8
  | .amxTile => 9
  | .amxBf16 => 10
  | .amxInt8 => 11

def featureBit (feature : CpuFeatureV2) : BitVec 64 := twoPow 64 feature.index

def knownCpuFeatureBits : BitVec 64 :=
  cpuFeatureOrder.foldl (fun bits feature => bits ||| featureBit feature) 0

def x86CpuFeatureBits : BitVec 64 := knownCpuFeatureBits &&& ~~~featureBit .portableScalarF32

/-- Unknown, known to be unavailable, or known to be available. -/
structure CpuFeatureDomain where
  known : BitVec 64 := 0
  available : BitVec 64 := 0

structure CpuCapabilities where
  version : ℕ := 2
  architecture : ArchitectureKind := .unknown
  hardware : CpuFeatureDomain := {}
  osEnabled : CpuFeatureDomain := {}
  compiler : CpuFeatureDomain := {}
  implementation : CpuFeatureDomain := {}
  runtimeValidation : CpuFeatureDomain := {}
  osXstateMask : BitVec 64 := 0
  osXstateMaskKnown : Bool := false
  amxPermissionKnown : Bool := false
  amxPermissionGranted : Bool := false
  usableVectorBits : ℕ := 0

namespace CpuFeatureDomain

variable (domain : CpuFeatureDomain) (feature : CpuFeatureV2)

def featureKnown : Bool := domain.known &&& featureBit feature ≠ 0

def featureAvailable : Bool :=
  domain.featureKnown feature && domain.available &&& featureBit feature ≠ 0

/-- `domain_well_formed`. -/
def wellFormed : Bool :=
  domain.known &&& ~~~knownCpuFeatureBits = 0 && domain.available &&& ~~~domain.known = 0

def dependenciesSatisfied : Bool :=
  !((domain.featureAvailable .avx512dq || domain.featureAvailable .avx512bw ||
      domain.featureAvailable .avx512vl || domain.featureAvailable .avx512vnni ||
      domain.featureAvailable .avx512bf16) && !domain.featureAvailable .avx512f) &&
    !((domain.featureAvailable .amxBf16 || domain.featureAvailable .amxInt8) &&
      !domain.featureAvailable .amxTile)

end CpuFeatureDomain

namespace CpuCapabilities

variable (record : CpuCapabilities)

def hasUsableFeature (feature : CpuFeatureV2) : Bool :=
  record.hardware.featureAvailable feature && record.osEnabled.featureAvailable feature &&
    record.compiler.featureAvailable feature && record.implementation.featureAvailable feature

def hasRuntimeValidatedFeature (feature : CpuFeatureV2) : Bool :=
  record.hasUsableFeature feature && record.runtimeValidation.featureAvailable feature

def deriveUsableVectorBits : ℕ :=
  if record.hasUsableFeature .avx512f then 512
  else if record.hasUsableFeature .avx2 then 256
  else 0

end CpuCapabilities

def avxXstate : BitVec 64 := twoPow 64 1 ||| twoPow 64 2
def avx512Xstate : BitVec 64 :=
  avxXstate ||| twoPow 64 5 ||| twoPow 64 6 ||| twoPow 64 7
def amxXstate : BitVec 64 := twoPow 64 17 ||| twoPow 64 18

/-- A record that claims nothing. -/
def unknownArchitectureReason (record : CpuCapabilities) : Option String :=
  firstRefusal [
    (record.hardware.known ≠ 0 || record.osEnabled.known ≠ 0 || record.compiler.known ≠ 0 ||
      record.implementation.known ≠ 0 || record.runtimeValidation.known ≠ 0 ||
      record.osXstateMaskKnown || record.amxPermissionKnown || record.usableVectorBits ≠ 0,
      "unknown CPU architecture cannot claim feature state")]

def knownArchitectureReason (record : CpuCapabilities) : Option String :=
  let x86 := record.architecture = .x86_64
  let availableX86 := (record.hardware.available ||| record.osEnabled.available |||
    record.compiler.available ||| record.implementation.available |||
    record.runtimeValidation.available) &&& x86CpuFeatureBits
  firstRefusal [
    (record.hardware.available &&& featureBit .portableScalarF32 = 0 ||
      record.osEnabled.available &&& featureBit .portableScalarF32 = 0 ||
      record.compiler.available &&& featureBit .portableScalarF32 = 0,
      "known CPU requires portable scalar hardware, OS, and compiler support"),
    (record.osEnabled.available &&& ~~~record.hardware.available ≠ 0,
      "OS-enabled feature cannot exceed hardware support"),
    (record.runtimeValidation.available &&& ~~~(record.hardware.available &&&
      record.osEnabled.available &&& record.compiler.available &&&
      record.implementation.available) ≠ 0,
      "runtime validation requires a usable implementation"),
    (!x86 && availableX86 ≠ 0, "x86 ISA feature requires x86_64 architecture"),
    (!x86 && (record.osXstateMaskKnown || record.amxPermissionKnown),
      "non-x86 record cannot claim x86 OS state"),
    (record.amxPermissionGranted && !record.amxPermissionKnown,
      "AMX permission cannot be granted when its state is unknown"),
    ((record.osEnabled.featureAvailable .amxTile || record.osEnabled.featureAvailable .amxBf16 ||
      record.osEnabled.featureAvailable .amxInt8) &&
      (!record.amxPermissionKnown || !record.amxPermissionGranted),
      "OS-enabled AMX requires explicit architectural-state permission"),
    (record.osXstateMaskKnown && (record.osEnabled.featureAvailable .avx2 ||
      record.osEnabled.featureAvailable .fma) && record.osXstateMask &&& avxXstate ≠ avxXstate,
      "OS-enabled AVX2/FMA requires XMM and YMM XSTATE"),
    (record.osXstateMaskKnown && record.osEnabled.featureAvailable .avx512f &&
      record.osXstateMask &&& avx512Xstate ≠ avx512Xstate,
      "OS-enabled AVX-512 requires complete ZMM XSTATE"),
    (record.osXstateMaskKnown && record.osEnabled.featureAvailable .amxTile &&
      record.osXstateMask &&& amxXstate ≠ amxXstate,
      "OS-enabled AMX requires tile configuration and data XSTATE"),
    (record.usableVectorBits ≠ record.deriveUsableVectorBits,
      "usable vector width disagrees with usable feature domains")]

/-- The reason for which a record is invalid, if it is. -/
def validateCpuCapabilities (record : CpuCapabilities) : Option String :=
  let domains := [record.hardware, record.osEnabled, record.compiler, record.implementation,
    record.runtimeValidation]
  firstRefusal ([
    (decide (record.version ≠ 2), "CPU capability record version is unsupported"),
    (decide (record.architecture = .outside), "CPU capability record architecture is invalid")] ++
    domains.flatMap fun domain => [
      (!domain.wellFormed, "CPU feature domain contains unknown or unproven bits"),
      (!domain.dependenciesSatisfied, "CPU feature domain violates ISA feature dependencies")]) <|>
  if record.architecture = .unknown then unknownArchitectureReason record
  else knownArchitectureReason record

end Matcore.Platform
