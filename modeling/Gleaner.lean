import Gleaner.Extract.Matcher
import Gleaner.Proofs.Arena
import Gleaner.Proofs.Chains
import Gleaner.Proofs.Limits
import Gleaner.Proofs.LiteralAgreement
import Gleaner.Proofs.Recompiling
import Gleaner.Proofs.RoundTrip
import Gleaner.Proofs.Scopes
import Gleaner.Proofs.Slices
import Gleaner.Proofs.Survivors
import Gleaner.Proofs.TextMatching
import Gleaner.Proofs.Typing
import Gleaner.Settings.File
import Gleaner.Template.Outline
import Gleaner.Version
import Gleaner.Proofs.Answers
import Gleaner.Proofs.Transactions
import Gleaner.Proofs.LooseMarkup
import Gleaner.Proofs.Counterparts
import Gleaner.Proofs.Locality
import Gleaner.Proofs.FaultPlaces
import Gleaner.Proofs.ListingEnds
import Gleaner.Proofs.LoneBindings
import Gleaner.Proofs.SpelledSelectors
import Gleaner.Proofs.TagNames
import Gleaner.Proofs.Effort
import Gleaner.Proofs.Numerals
import Gleaner.Proofs.AttributeBindings
import Gleaner.Proofs.Ancestry
import Gleaner.Proofs.TextContent
import Gleaner.Proofs.RoundPlaces
import Gleaner.Proofs.FaultExcerpts
import Gleaner.Proofs.ReadingEnds
import Gleaner.Proofs.SettingsFiles
import Gleaner.Proofs.KeptAttributes
import Gleaner.Proofs.ArenaBuilding
