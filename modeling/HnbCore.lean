import HnbCore.FeeRate
import HnbCore.SequenceLocks
import HnbCore.MempoolMaps
import HnbCore.BlockFiles
import HnbCore.MempoolClosure
import HnbCore.TokenAuthority
import HnbCore.BlockIndexStore
import HnbCore.AssetSelection
import HnbCore.AssetRecovery
import HnbCore.ChainSelection
import HnbCore.AmountCompression
import HnbCore.MerkleRoot
import HnbCore.Bip9
import HnbCore.NameParents
import HnbCore.VerifierValue
import HnbCore.DarkGravity
import HnbCore.DecodersAgree
import HnbCore.Channels
import HnbCore.Snapshots
