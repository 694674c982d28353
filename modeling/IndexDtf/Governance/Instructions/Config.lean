import IndexDtf.Governance.Dao

/-!
# IndexDtf.Governance.Instructions.Config

The instructions on the configuration: of the realm, by its authority, and of a governance, by
the governance itself.
-/

namespace IndexDtf.Governance

open Lib

/-- The keys that signed the instruction. -/
def ConfigInstruction.signers : ConfigInstruction → List Pubkey
  | .createGovernance _ _ _ createAuthority _ =>
      if createAuthority.isSigner then [createAuthority.key] else []
  | .setGovernanceConfig governance _ => if governance.isSigner then [governance.key] else []
  | .addRequiredSignatory governance _ => if governance.isSigner then [governance.key] else []
  | .removeRequiredSignatory governance _ => if governance.isSigner then [governance.key] else []
  | .setRealmConfig realmAuthority _ =>
      if realmAuthority.isSigner then [realmAuthority.key] else []
  | .setRealmConfigItem realmAuthority _ _ _ =>
      if realmAuthority.isSigner then [realmAuthority.key] else []
  | .setRealmAuthority realmAuthority _ =>
      if realmAuthority.isSigner then [realmAuthority.key] else []

namespace Dao

/-- `assert_create_authority_can_create_governance`. -/
def assertCreateAuthorityCanCreateGovernance (d : Dao) (record : TokenOwnerRecordSeeds)
    (createAuthority : AccountInfo)
    (voterWeightRecord : Option (AddinAccount VoterWeightRecord)) : Outcome Unit :=
  if d.realm.authority = some createAuthority.key then
    require .RealmAuthorityMustSign (createAuthority.isSigner = true)
  else do
    let t ← d.getTokenOwnerRecordData record
    t.assertTokenOwnerOrDelegateIsSigner createAuthority
    let voterWeight ← t.resolveVoterWeight d.realmAddress d.realm d.realmConfig d.slot
      voterWeightRecord .CreateGovernance d.realmAddress
    t.assertCanCreateGovernance d.realm voterWeight

/-- `process_create_governance`. -/
def createGovernance (d : Dao) (governance : Pubkey) (config : GovernanceConfig)
    (record : TokenOwnerRecordSeeds) (createAuthority : AccountInfo)
    (voterWeightRecord : Option (AddinAccount VoterWeightRecord)) : Outcome Dao := do
  assertIsValidGovernanceConfig config
  d.assertCreateAuthorityCanCreateGovernance record createAuthority voterWeightRecord
  guardOr .external (d.governances.lookup governance = none)
  .ok (d.setGovernance governance { config })

/-- `process_set_governance_config`. -/
def setGovernanceConfig (d : Dao) (governance : AccountInfo) (config : GovernanceConfig) :
    Outcome Dao := do
  require .GovernancePdaMustSign (governance.isSigner = true)
  assertIsValidGovernanceConfig config
  let g ← d.getGovernanceData governance.key
  .ok (d.setGovernance governance.key { g with config })

/-- `process_add_required_signatory`. -/
def addRequiredSignatory (d : Dao) (governance : AccountInfo) (signatory : Pubkey) :
    Outcome Dao := do
  require .GovernancePdaMustSign (governance.isSigner = true)
  let g ← d.getGovernanceData governance.key
  let requiredSignatoriesCount ← unwrapAdd u8Max g.requiredSignatoriesCount 1
  guardOr .external (d.requiredSignatories.lookup ⟨governance.key, signatory⟩ = none)
  .ok { d.setGovernance governance.key { g with requiredSignatoriesCount } with
    requiredSignatories := d.requiredSignatories.insert ⟨governance.key, signatory⟩
      { governance := governance.key, signatory } }

/-- `process_remove_required_signatory`. -/
def removeRequiredSignatory (d : Dao) (governance : AccountInfo)
    (required : RequiredSignatorySeeds) : Outcome Dao := do
  require .GovernancePdaMustSign (governance.isSigner = true)
  let g ← d.getGovernanceData governance.key
  let _ ← d.getRequiredSignatoryDataForGovernance required governance.key
  let requiredSignatoriesCount ← unwrapSub g.requiredSignatoriesCount 1
  .ok { d.setGovernance governance.key { g with requiredSignatoriesCount } with
    requiredSignatories := d.requiredSignatories.erase required }

/-- `assert_valid_realm_config_args`. -/
def assertValidRealmConfigArgs (args : RealmConfigArgs) : Outcome Unit :=
  match args.communityMintMaxVoterWeightSource with
  | .SupplyFraction fraction =>
      require .InvalidMaxVoterWeightSupplyFraction (1 ≤ fraction ∧ fraction ≤ supplyFractionBase)
  | .Absolute value => require .InvalidMaxVoterWeightAbsoluteValue (value ≠ 0)

/-- The council mint after a change of the configuration: it can be removed, not replaced. -/
def resolveCouncilMint (d : Dao) : Option Pubkey → Outcome (Option Pubkey)
  | some councilMint => do
      require .RealmCouncilMintChangeIsNotSupported (d.realm.config.councilMint = some councilMint)
      .ok d.realm.config.councilMint
  | none => .ok none

/-- `assert_can_change_config`. -/
def assertCanChangeConfig (d : Dao) (args : RealmConfigArgs) : Outcome Unit :=
  require .CannotChangeCommunityTokenTypeToMembership
    (¬ (d.realmConfig.communityTokenConfig.tokenType ≠ .Membership ∧
      args.communityTokenConfigArgs.tokenType = .Membership))

/-- `resolve_governing_token_config`: the lock authorities stay. -/
def resolveGoverningTokenConfig (args : GoverningTokenConfigAccountArgs)
    (existing : GoverningTokenConfig) : GoverningTokenConfig where
  voterWeightAddin := args.voterWeightAddin
  maxVoterWeightAddin := args.maxVoterWeightAddin
  tokenType := args.tokenType
  lockAuthorities := existing.lockAuthorities

/-- `process_set_realm_config`. -/
def setRealmConfig (d : Dao) (realmAuthority : AccountInfo) (args : RealmConfigArgs) :
    Outcome Dao := do
  d.assertRealmAuthority realmAuthority
  assertValidRealmConfigArgs args
  let councilMint ← d.resolveCouncilMint args.councilMint
  d.assertCanChangeConfig args
  .ok { d with
    realmConfig :=
      { communityTokenConfig := resolveGoverningTokenConfig args.communityTokenConfigArgs
          d.realmConfig.communityTokenConfig
        councilTokenConfig := resolveGoverningTokenConfig args.councilTokenConfigArgs
          d.realmConfig.councilTokenConfig }
    realm := { d.realm with
      config :=
        { minCommunityWeightToCreateGovernance := args.minCommunityWeightToCreateGovernance
          communityMintMaxVoterWeightSource := args.communityMintMaxVoterWeightSource
          councilMint } } }

/-- The lock authorities with one more, or one less. -/
def changeLockAuthorities (authority : Pubkey) (lockAuthorities : List Pubkey) :
    SetConfigItemActionType → Outcome (List Pubkey)
  | .Add => do
      require .TokenOwnerRecordLockAuthorityAlreadyExists (authority ∉ lockAuthorities)
      .ok (lockAuthorities ++ [authority])
  | .Remove => do
      require .TokenOwnerRecordLockAuthorityNotFound (authority ∈ lockAuthorities)
      .ok (lockAuthorities.erase authority)

/-- `process_set_realm_config_item`: the lock authorities of a governing token. -/
def setRealmConfigItem (d : Dao) (realmAuthority : AccountInfo)
    (action : SetConfigItemActionType) (mint authority : Pubkey) : Outcome Dao := do
  d.assertRealmAuthority realmAuthority
  let tokenConfig ← d.realmConfig.getTokenConfig d.realm mint
  let lockAuthorities ← changeLockAuthorities authority tokenConfig.lockAuthorities action
  .ok { d with
    realmConfig :=
      d.realmConfig.setTokenConfig d.realm mint { tokenConfig with lockAuthorities } }

/-- The authority a realm gets. -/
def newRealmAuthority (d : Dao) : SetRealmAuthorityAction → Outcome (Option Pubkey)
  | .SetUnchecked authority => .ok (some authority)
  | .SetChecked authority => do
      let _ ← d.getGovernanceData authority
      .ok (some authority)
  | .Remove => .ok none

/-- `process_set_realm_authority`. -/
def setRealmAuthority (d : Dao) (realmAuthority : AccountInfo)
    (action : SetRealmAuthorityAction) : Outcome Dao := do
  d.assertRealmAuthority realmAuthority
  let authority ← d.newRealmAuthority action
  .ok { d with realm := { d.realm with authority } }

/-- The instructions on the configuration. -/
def stepConfig (d : Dao) : ConfigInstruction → Outcome Dao
  | .createGovernance governance config record createAuthority voterWeightRecord =>
      d.createGovernance governance config record createAuthority voterWeightRecord
  | .setGovernanceConfig governance config => d.setGovernanceConfig governance config
  | .addRequiredSignatory governance signatory => d.addRequiredSignatory governance signatory
  | .removeRequiredSignatory governance required =>
      d.removeRequiredSignatory governance required
  | .setRealmConfig realmAuthority args => d.setRealmConfig realmAuthority args
  | .setRealmConfigItem realmAuthority action mint authority =>
      d.setRealmConfigItem realmAuthority action mint authority
  | .setRealmAuthority realmAuthority action => d.setRealmAuthority realmAuthority action

end Dao

end IndexDtf.Governance
