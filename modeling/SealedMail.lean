import SealedMail.Derivation.PathDocument
import SealedMail.Message.Opener
import SealedMail.Message.Sealer
import SealedMail.Message.Unauthenticated
import SealedMail.Proofs.Derivation.PublicHalf
import SealedMail.Proofs.Message.Delivery
import SealedMail.Proofs.Message.Tampering
import SealedMail.Proofs.Derivation.Lineage
import SealedMail.Proofs.Derivation.Printing
import SealedMail.Proofs.Message.Policies
import SealedMail.Proofs.Message.Binding
import SealedMail.Proofs.Message.ExtendedDelivery
import SealedMail.Proofs.Derivation.Grammar
import SealedMail.Proofs.Message.Canonical
import SealedMail.Proofs.Message.Rejection
import SealedMail.Proofs.Derivation.Spelling
import SealedMail.Proofs.Derivation.Slashes
import SealedMail.Proofs.Cipher.Nonces
import SealedMail.Proofs.Message.Emission
import SealedMail.Proofs.Curve.Verification
import SealedMail.Proofs.Message.Unauthenticated
import SealedMail.Proofs.Message.SignedPayload
import SealedMail.Proofs.Message.Framing
import SealedMail.Proofs.Message.Truncation
import SealedMail.Proofs.Message.Reports
import SealedMail.Proofs.Message.Consumption
import SealedMail.Proofs.Derivation.PrefixOrder
import SealedMail.Proofs.Curve.Spellings
import SealedMail.Proofs.Derivation.Validity
import SealedMail.Proofs.Derivation.ChildMessages
import SealedMail.Proofs.Bytes.Padding
import SealedMail.Proofs.Random.Draws
import SealedMail.Proofs.Hash.DigestText
