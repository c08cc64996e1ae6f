import Aegis.Admin

/-!
# Protocol configuration

The minimum transfer amount and the batch limit, amended in two steps.
-/

set_option autoImplicit false

namespace Aegis
open HostKit

variable {Address : Type}

def defaultConfig : ProtocolConfig := ⟨0,100⟩

def getConfig (l : Ledger Address) : ProtocolConfig := (l.get .protocolConfig).getD defaultConfig

def getPendingConfig (l : Ledger Address) : Option ProtocolConfig := l.get .protocolConfigCandidate

variable [DecidableEq Address]

def proposeConfig (admin : Address) (proposedConfig : ProtocolConfig) :
    Contract Address Unit := do
  requireGoverning admin
  errWhen (proposedConfig.minTransferAmount.val < 0) .invalidAmount
  errWhen (proposedConfig.maxBatchSize = 0) .invalidAmount
  set .protocolConfigCandidate proposedConfig
  publish (.configProposed admin proposedConfig)

def acceptConfig (admin : Address) : Contract Address Unit := do
  requireGoverning admin
  let pendingConfig ← getOr (·.get .protocolConfigCandidate) (.err .noPendingAdminTransfer)
  remove .protocolConfigCandidate
  set .protocolConfig pendingConfig
  publish (.configAmended admin pendingConfig)

def cancelConfigProposal (admin : Address) : Contract Address Unit := do
  requireGoverning admin
  errWhen (!(← load fun l => l.has .protocolConfigCandidate)) .noPendingAdminTransfer
  remove .protocolConfigCandidate

section
variable {auth : Auth Address} {env env' : Env Address} {u : Unit} {admin : Address}

theorem proposeConfig_ok {proposedConfig : ProtocolConfig} :
    (proposeConfig admin proposedConfig).exec auth env = (.ok u, env') ↔
      Governs auth admin env.ledger ∧ 0 ≤ proposedConfig.minTransferAmount.val ∧
        proposedConfig.maxBatchSize ≠ 0 ∧
        env' = ⟨env.ledger.set .protocolConfigCandidate proposedConfig,
          env.events++[.configProposed admin proposedConfig]⟩ := by
  simp [proposeConfig, Host.bind_ok_iff]

theorem acceptConfig_ok :
    (acceptConfig admin).exec auth env = (.ok u, env') ↔
      Governs auth admin env.ledger ∧ ∃ pending,
        env.ledger.get .protocolConfigCandidate = some pending ∧
        env' = ⟨(env.ledger.remove .protocolConfigCandidate).set .protocolConfig pending,
          env.events++[.configAmended admin pending]⟩ := by
  simp [acceptConfig, Host.bind_ok_iff]

theorem cancelConfigProposal_ok :
    (cancelConfigProposal admin).exec auth env = (.ok u, env') ↔
      Governs auth admin env.ledger ∧ env.ledger.has .protocolConfigCandidate = true ∧
        env' = ⟨env.ledger.remove .protocolConfigCandidate,env.events⟩ := by
  simp [cancelConfigProposal, Host.bind_ok_iff]

end

end Aegis
