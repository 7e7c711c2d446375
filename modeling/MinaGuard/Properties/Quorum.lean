import MinaGuard.Instance.Book
import MinaGuard.Vault.Counters

/-!
# Executions are backed by quorums

No execution looks at who voted.  It reads a count from a leaf and compares it
with the threshold.  The vault behind the guard knows the voters, and the
configuration number makes them current owners, so every execution has a
quorum of signers behind it, and a proposal that follows the rules of
`propose`.
-/

namespace MinaGuard

open Foundations

variable {E : Env} {T : Transcript E} {guards : Set PublicKey}
  {as : List (Action E)} {L L' : Ledger} {a : PublicKey} {m : MethodCall E} {F : Forest}
  {p : TransactionProposal}

/-- `owners` is the owner list behind a commitment.  Within a transcript there
is at most one. -/
structure CommitsOwners (T : Transcript E) (commitment : Fp) (owners : List PublicKey) :
    Prop where
  chain : computeOwnerChain E owners = commitment
  chained : ∀ q ∈ ownerChainInputs E owners, q ∈ T.hashed

theorem CommitsOwners.unique {commitment : Fp} {owners owners' : List PublicKey}
    (h : CommitsOwners T commitment owners) (h' : CommitsOwners T commitment owners') :
    owners = owners' :=
  T.computeOwnerChain_inj h.chained h'.chained (h.chain.trans h'.chain.symm)

/-- Some `propose` or `approveProposal` call on `a` in the run carries the
signature of `k` on the proposal hash. -/
def SignedOn (as : List (Action E)) (a : PublicKey) (h : Fp) (k : PublicKey) : Prop :=
  ∃ m F, .call a m F ∈ as ∧ m.Signs E h k

/-- At least as many distinct present owners of `a` as its threshold asks for
have signed the proposal hash on `a`. -/
def HasQuorum (T : Transcript E) (as : List (Action E)) (L : Ledger) (a : PublicKey)
    (h : Fp) : Prop :=
  ∃ owners keys : List PublicKey,
    CommitsOwners T (L.state a).ownersCommitment owners ∧ keys.Nodup ∧
      (L.state a).threshold.val ≤ keys.length ∧
      ∀ k ∈ keys, k ∈ owners ∧ SignedOn as a h k

/-- A vault that approves a proposal has a quorum in the history of its guard. -/
theorem hasQuorum_of_approves (run : (ledgerSystem T guards).Run as L) (ha : a ∈ guards)
    {v : Vault} (hv : replay a as = .active v) (happroves : v.Approves E a p) :
    HasQuorum T as L a (E.proposalHash p) := by
  obtain ⟨hstate, hinvariant⟩ := Run.invariant run ha hv
  have hthreshold : (L.state a).threshold.val = v.threshold := by
    rw [hstate]
    exact hinvariant.val_threshold
  refine ⟨v.owners, v.voters E (E.proposalHash p), ?_, happroves.distinct, ?_, ?_⟩
  · rw [hstate]
    exact ⟨rfl, hinvariant.chained⟩
  · rw [hthreshold]
    exact happroves.enough
  · intro k hk
    refine ⟨happroves.owners k hk, ?_⟩
    obtain ⟨q, hq, heq⟩ := Vault.mem_voters.mp hk
    have hvote : (q, k) ∈ (replay a as).votes := by
      rw [hv]
      exact hq
    obtain ⟨m, F, hmem, hsigns⟩ := Run.signed run ha hvote
    rw [heq] at hsigns
    exact ⟨m, F, hmem, hsigns⟩

/-- A LOCAL execution has a quorum of the guard's present owners behind it. -/
theorem local_execution_quorum (run : (ledgerSystem T guards).Run as L)
    (step : LedgerStep T guards L (.call a m F) L') (hm : m.localExecution? = some p) :
    HasQuorum T as L a (E.proposalHash p) := by
  have hcall := step.call_inv
  obtain ⟨v, hv, -, hexecutable⟩ :=
    hcall.executable (Run.refines run hcall.guard) hm
  exact hasQuorum_of_approves run hcall.guard hv hexecutable.toApproves

theorem Walkthrough.add_hasQuorum :
    HasQuorum tables.transcript actionsBeforeAdd addApproved.ledger root
      (tables.env.proposalHash addOwnerC) :=
  local_execution_quorum run_beforeAdd add_step rfl

/-- A REMOTE execution on a child has a quorum of the present owners of its
stored parent behind it, collected on the parent, for this child. -/
theorem remote_execution_quorum (run : (ledgerSystem T guards).Run as L)
    (step : LedgerStep T guards L (.call a m F) L') (hm : m.remoteExecution? = some p)
    (hparent : p.guardAddress ∈ guards) :
    p.guardAddress = (L.state a).parent ∧ p.childAccount = a ∧
      HasQuorum T as L p.guardAddress (E.proposalHash p) := by
  have hcall := step.call_inv
  have hremote := hcall.remoteExecution (Run.refines run hcall.guard) hm
  have hguard := hremote.guard
  rw [hguard] at hparent
  obtain ⟨v, hv, -, happroves⟩ := hremote.approves (Run.refines run hparent)
  refine ⟨hguard, hremote.child, ?_⟩
  rw [hguard]
  exact hasQuorum_of_approves run hparent hv happroves

theorem Walkthrough.disable_hasQuorum :
    root = (disableApproved.ledger.state child).parent ∧
      disableChild.childAccount = child ∧
      HasQuorum tables.transcript (actionsBeforeAdd ++ [add] ++ actionsBeforeDisable)
        disableApproved.ledger root (tables.env.proposalHash disableChild) :=
  remote_execution_quorum run_disableApproved disable_step rfl (by decide)

/-- Whatever is executed went through `propose`. -/
theorem executed_proposal_rules (run : (ledgerSystem T guards).Run as L)
    (step : LedgerStep T guards L (.call a m F) L')
    (hm : m.localExecution? = some p ∨
      m.remoteExecution? = some p ∧ p.guardAddress ∈ guards) :
    ProposalRules E p := by
  have hcall := step.call_inv
  have href := Run.refines run hcall.guard
  rcases hm with hm | ⟨hm, hparent⟩
  · obtain ⟨v, -, hinvariant, hexecutable⟩ := hcall.executable href hm
    obtain ⟨k, hk⟩ := hexecutable.voted
    exact (hinvariant.votes _ hk).rules
  · have hremote := hcall.remoteExecution href hm
    rw [hremote.guard] at hparent
    obtain ⟨v, -, hinvariant, happroves⟩ :=
      hremote.approves (Run.refines run hparent)
    obtain ⟨k, hk⟩ := happroves.voted
    exact (hinvariant.votes _ hk).rules

theorem Walkthrough.disable_rules : ProposalRules tables.env disableChild :=
  executed_proposal_rules run_disableApproved disable_step (Or.inr ⟨rfl, by decide⟩)

end MinaGuard
