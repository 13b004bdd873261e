import TetCore.Consensus.Airdrop
import TetCore.Consensus.Ancestor
import TetCore.Consensus.Atomicity
import TetCore.Consensus.BlockId
import TetCore.Consensus.ChainSupply
import TetCore.Consensus.ForkChoice
import TetCore.Consensus.HashEffect
import TetCore.Consensus.Leader
import TetCore.Consensus.Nonces
import TetCore.Consensus.PathIndependence
import TetCore.Consensus.Receipts
import TetCore.Consensus.ReorgCorrect
import TetCore.Consensus.Selection
import TetCore.Consensus.Settlement
import TetCore.Court.DisputeRuns
import TetCore.Files.Runs
import TetCore.Files.UploadBudget
import TetCore.Ledger.PartialImport
import TetCore.Ledger.ScaleMigration
import TetCore.Ledger.ServedRequests
import TetCore.Mempool.Crash
import TetCore.Mempool.Rebroadcast
import TetCore.Mempool.Submissions
import TetCore.Page.AnonTree
import TetCore.Page.CodeTyping
import TetCore.Page.FloodGuard
import TetCore.Page.Invite
import TetCore.Page.Poll
import TetCore.Page.ThreadPost
import TetCore.Page.VerifyManifest
import TetCore.Payouts.Floors
import TetCore.Payouts.GrossForNet
import TetCore.Payouts.ThreadDecision
import TetCore.Rest.BlockListing
import TetCore.Rest.CaacComplete
import TetCore.Rest.RateLimit
import TetCore.SearchListings
import TetCore.SigSearch
import TetCore.Sync.ApplyQueue
import TetCore.Sync.Buffers
import TetCore.Tmail.AnonPages
import TetCore.Tmail.Appeals
import TetCore.Tmail.BoardKeys
import TetCore.Tmail.Burn
import TetCore.Tmail.HeldPosts
import TetCore.Tmail.MemberPath
import TetCore.Tmail.NamedMail
import TetCore.Tmail.Nullifiers
import TetCore.Tmail.PollRoots
import TetCore.Tmail.ReceiptCache
import TetCore.Tmail.Soundness
