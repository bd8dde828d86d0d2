import Mathlib.Data.List.Nodup
import LensoServiceAccount.Crypto

/-! The configuration of an instance and what activation makes of it. -/

namespace LensoServiceAccount

structure ServiceAccountConfig where
  schema : String
  databaseUrlSecret : String
  credentialPepperSecret : String
  receiptEncryptionKeySecret : String
  directoryProvider : String
  authIssuer : String
  authPublicKey : String
  managementCallers : List String
  authenticationCallers : List String
  tokenAudience : List String
  credentialTtlSeconds : ℕ
  rotationOverlapSeconds : ℕ
  tokenTtlSeconds : ℕ
  receiptTtlSeconds : ℕ
  exchangeWindowSeconds : ℕ
  maxExchangesPerWindow : ℕ
  exchangeLockoutSeconds : ℕ
  maxPageSize : ℕ
  maxAccountsPerOrganization : ℕ
  deriving DecidableEq,Repr

inductive ServiceAccountConfigError
  | invalidSchema
  | invalidSecretReferences
  | invalidAuthorities
  | invalidAuthPublicKey
  | invalidAuthoritySet
  | invalidLimits
  deriving DecidableEq,Repr

def validAuthority (value : String) (max : ℕ) : Bool := validBytes ['-','_','.',':'] max value

def validSecretReference (value : String) : Bool := validAuthority value 256

/-- One or two authorities, separated by a slash. -/
def validCaller (value : String) : Bool :=
  let parts := value.toList.splitOn '/'
  decide (value.utf8ByteSize ≤ 128) && decide (1 ≤ parts.length ∧ parts.length ≤ 2) &&
    parts.all fun part => validAuthority (String.ofList part) 128

def validAudience (value : String) : Bool := validBytes ['.','_','-',':','@'] 256 value

def validCallerSet (values : List String) : Bool :=
  !values.isEmpty && decide (values.length ≤ 64) && values.all validCaller && decide values.Nodup

/-- `(low..=high).contains(&value)`. -/
def within (low high value : ℕ) : Bool := decide (low ≤ value) && decide (value ≤ high)

def ServiceAccountConfig.validLimits (c : ServiceAccountConfig) : Bool :=
  within 300 31536000 c.credentialTtlSeconds && decide (c.rotationOverlapSeconds ≤ 3600) &&
  decide (c.rotationOverlapSeconds < c.credentialTtlSeconds) && within 1 86400 c.tokenTtlSeconds &&
  decide (c.tokenTtlSeconds ≤ c.credentialTtlSeconds) && within 300 604800 c.receiptTtlSeconds &&
  within 1 3600 c.exchangeWindowSeconds && within 1 10000 c.maxExchangesPerWindow &&
  within 1 86400 c.exchangeLockoutSeconds && within 1 200 c.maxPageSize &&
  within 1 10000 c.maxAccountsPerOrganization

def ServiceAccountConfig.secretReferences (c : ServiceAccountConfig) : List String :=
  [c.databaseUrlSecret,c.credentialPepperSecret,c.receiptEncryptionKeySecret]

/-- `ServiceAccountConfig::validate`. -/
def ServiceAccountConfig.validate (E : Environment) (c : ServiceAccountConfig) :
    Except ServiceAccountConfigError Unit :=
  if !E.schemaPlan c.schema then .error .invalidSchema
  else if !(c.secretReferences.all validSecretReference && decide c.secretReferences.Nodup) then
    .error .invalidSecretReferences
  else if !(validAuthority c.directoryProvider 128 && validAuthority c.authIssuer 128) then
    .error .invalidAuthorities
  else if c.authPublicKey.isEmpty || decide (256 < c.authPublicKey.utf8ByteSize) then
    .error .invalidAuthPublicKey
  else if !E.actorVerifier c.authIssuer c.authPublicKey then .error .invalidAuthPublicKey
  else if !validCallerSet c.managementCallers then .error .invalidAuthoritySet
  else if !validCallerSet c.authenticationCallers then .error .invalidAuthoritySet
  else if c.tokenAudience.isEmpty || decide (64 < c.tokenAudience.length) ||
      !c.tokenAudience.all validAudience || !decide c.tokenAudience.Nodup then
    .error .invalidAuthoritySet
  else if !c.validLimits then .error .invalidLimits
  else .ok ()

/-- What activation leaves behind: only a validated configuration is ever active. -/
structure ActiveServiceAccount (E : Environment) where
  config : ServiceAccountConfig
  pepper : Bytes
  receiptCipher : ReceiptCipher
  dummyVerifier : String
  valid : config.validate E = .ok ()
  longPepper : 32 ≤ pepper.length
  dummy : ∃ salt, E.hashPassword (peppered "invalid service-account credential" pepper) salt =
    some dummyVerifier

/-- An instance of the plugin: active or not. -/
structure ServiceAccountPlugin (E : Environment) where
  active : Option (ActiveServiceAccount E)

/-- The part of an invocation context that the plugin reads itself. -/
structure InvocationContext where
  callerInstance : Option String
  deriving DecidableEq,Repr

section
variable {E : Environment} {c : ServiceAccountConfig}

/-- A validated configuration passed every check. -/
theorem ServiceAccountConfig.validate_ok (h : c.validate E = .ok ()) :
    validCallerSet c.managementCallers = true ∧ validCallerSet c.authenticationCallers = true ∧
      c.validLimits = true := by
  unfold validate at h
  split_ifs at h with h₁ h₂ h₃ h₄ h₅ h₆ h₇ h₈ h₉
  exact ⟨by simpa using h₆,by simpa using h₇,by simpa using h₉⟩

theorem validCaller_of_mem {values : List String} (h : validCallerSet values = true) {value : String}
    (hm : value ∈ values) : validCaller value = true := by
  simp only [validCallerSet,Bool.and_eq_true,List.all_eq_true] at h
  exact h.1.2 value hm

end
end LensoServiceAccount
