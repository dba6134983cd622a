import AesEcb.Provider.Scripted
import AesEcb.Session.Basic
import AesEcb.Session.Log
import AesEcb.Proofs.Output
import AesEcb.Proofs.Refinement
import AesEcb.Proofs.Issuance
import AesEcb.Proofs.Alignment
import AesEcb.Proofs.Balance
import AesEcb.Proofs.Containment
import AesEcb.Proofs.Secrecy
import AesEcb.Proofs.Permutation
import AesEcb.Proofs.Delegation
import AesEcb.Proofs.FlatBuffers
import AesEcb.Proofs.Paths
import AesEcb.Proofs.Lifetime
import AesEcb.Proofs.Constructors
import AesEcb.Proofs.FirstFree
import AesEcb.Proofs.Counts
import AesEcb.Proofs.Numbering
import AesEcb.Proofs.Patches
import AesEcb.Proofs.Commutation
import AesEcb.Proofs.Warnings
import AesEcb.Proofs.Mishaps
import AesEcb.Proofs.Diagnostics
import AesEcb.Proofs.Windows
