import HnbCore.AssetTypes
import HnbCore.Destination

/-!
# Chain parameters and deployments
-/

namespace HnbCore

/-- The networks of `CBaseChainParams`. -/
inductive Network
  | main
  | testnet
  | regtest
  deriving DecidableEq, Repr

structure CChainParams where
  network : Network
  base58 : Base58Prefixes
  nIssueAssetBurnAmount : CAmount
  nReissueAssetBurnAmount : CAmount
  nIssueSubAssetBurnAmount : CAmount
  nIssueUniqueAssetBurnAmount : CAmount
  nIssueMsgChannelAssetBurnAmount : CAmount
  nIssueQualifierAssetBurnAmount : CAmount
  nIssueSubQualifierAssetBurnAmount : CAmount
  nIssueRestrictedAssetBurnAmount : CAmount
  nAddNullQualifierTagBurnAmount : CAmount
  strIssueAssetBurnAddress : Bytes
  strReissueAssetBurnAddress : Bytes
  strIssueSubAssetBurnAddress : Bytes
  strIssueUniqueAssetBurnAddress : Bytes
  strIssueMsgChannelAssetBurnAddress : Bytes
  strIssueQualifierAssetBurnAddress : Bytes
  strIssueSubQualifierAssetBurnAddress : Bytes
  strIssueRestrictedAssetBurnAddress : Bytes
  strAddNullQualifierTagBurnAddress : Bytes
  nSubsidyHalvingInterval : Nat

def regTestParams : CChainParams where
  network := .regtest
  base58 := ⟨111, 196⟩
  nIssueAssetBurnAmount := 500 * coin
  nReissueAssetBurnAmount := 100 * coin
  nIssueSubAssetBurnAmount := 100 * coin
  nIssueUniqueAssetBurnAmount := 5 * coin
  nIssueMsgChannelAssetBurnAmount := 100 * coin
  nIssueQualifierAssetBurnAmount := 1000 * coin
  nIssueSubQualifierAssetBurnAmount := 100 * coin
  nIssueRestrictedAssetBurnAmount := 1500 * coin
  nAddNullQualifierTagBurnAmount := coin / 10
  strIssueAssetBurnAddress := str "n1issueAssetXXXXXXXXXXXXXXXXWdnemQ"
  strReissueAssetBurnAddress := str "n1ReissueAssetXXXXXXXXXXXXXXWG9NLd"
  strIssueSubAssetBurnAddress := str "n1issueSubAssetXXXXXXXXXXXXXbNiH6v"
  strIssueUniqueAssetBurnAddress := str "n1issueUniqueAssetXXXXXXXXXXS4695i"
  strIssueMsgChannelAssetBurnAddress := str "n1issueMsgChanneLAssetXXXXXXT2PBdD"
  strIssueQualifierAssetBurnAddress := str "n1issueQuaLifierXXXXXXXXXXXXUysLTj"
  strIssueSubQualifierAssetBurnAddress := str "n1issueSubQuaLifierXXXXXXXXXYffPLh"
  strIssueRestrictedAssetBurnAddress := str "n1issueRestrictedXXXXXXXXXXXXZVT9V"
  strAddNullQualifierTagBurnAddress := str "n1addTagBurnXXXXXXXXXXXXXXXXX5oLMH"
  nSubsidyHalvingInterval := 150

/-- Which of the version-bits deployments the node sees as active. `IsRip5Active` stands for
messages and restricted assets both. -/
structure Deployments where
  areAssetsDeployed : Bool
  isRip5Active : Bool
  areTransferScriptsSizeDeployed : Bool
  areEnforcedValuesDeployed : Bool
  areCoinbaseCheckAssetsDeployed : Bool
  deriving DecidableEq, Repr

def Deployments.areMessagesDeployed (d : Deployments) : Bool := d.isRip5Active

def Deployments.areRestrictedAssetsDeployed (d : Deployments) : Bool := d.isRip5Active

def Deployments.all : Deployments := ⟨true, true, true, true, true⟩

/-- What every check reads besides its arguments. -/
structure Env where
  hashes : Hashes
  params : CChainParams
  deployments : Deployments

namespace Env

variable (env : Env)

def extractDestination (script : CScript) : Option CTxDestination :=
  HnbCore.extractDestination env.hashes script

def encodeDestination (dest : CTxDestination) : Bytes :=
  HnbCore.encodeDestination env.hashes env.params.base58 dest

def decodeDestination (s : Bytes) : CTxDestination :=
  HnbCore.decodeDestination env.hashes env.params.base58 s

/-- The address string of a script, empty where no destination can be read off it. -/
def addressOf (script : CScript) : Bytes :=
  env.encodeDestination ((env.extractDestination script).getD .noDestination)

def getBurnAmount (type : AssetType) : CAmount :=
  let p := env.params
  match type with
  | .root => p.nIssueAssetBurnAmount
  | .sub => p.nIssueSubAssetBurnAmount
  | .msgchannel => p.nIssueMsgChannelAssetBurnAmount
  | .unique => p.nIssueUniqueAssetBurnAmount
  | .reissue => p.nReissueAssetBurnAmount
  | .qualifier => p.nIssueQualifierAssetBurnAmount
  | .subQualifier => p.nIssueSubQualifierAssetBurnAmount
  | .restricted => p.nIssueRestrictedAssetBurnAmount
  | .nullAddQualifier => p.nAddNullQualifierTagBurnAmount
  | .owner | .vote | .invalid => 0

def getBurnAddress (type : AssetType) : Bytes :=
  let p := env.params
  match type with
  | .root => p.strIssueAssetBurnAddress
  | .sub => p.strIssueSubAssetBurnAddress
  | .msgchannel => p.strIssueMsgChannelAssetBurnAddress
  | .unique => p.strIssueUniqueAssetBurnAddress
  | .reissue => p.strReissueAssetBurnAddress
  | .qualifier => p.strIssueQualifierAssetBurnAddress
  | .subQualifier => p.strIssueSubQualifierAssetBurnAddress
  | .restricted => p.strIssueRestrictedAssetBurnAddress
  | .nullAddQualifier => p.strAddNullQualifierTagBurnAddress
  | .owner | .vote | .invalid => []

end Env

/-- Hash functions known by their values at the byte strings that occur. -/
def tableHashes (hash hash160 : List (Bytes × Bytes)) : Hashes where
  hash b := (hash.lookup b).getD []
  hash160 b := (hash160.lookup b).getD []

end HnbCore
