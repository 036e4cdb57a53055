import PageText.Command.FileStore
import PageText.Main
import PageText.Proofs.Pages
import PageText.Proofs.Conservation
import PageText.Proofs.Survivors
import PageText.Proofs.Encoding
import PageText.Proofs.Reading
import PageText.Proofs.Spelling
import PageText.Proofs.Writing
import PageText.Proofs.Failures
import PageText.Proofs.Scopes
import PageText.Proofs.TextObjects
import PageText.Proofs.UnmatchedEnds
import PageText.Proofs.History
import PageText.Proofs.FloatOrder
import PageText.Proofs.MediaBox
import PageText.Proofs.MetricsReach
import PageText.Proofs.SinglePage
import PageText.Proofs.Continuation
import PageText.Proofs.Composites
import PageText.Proofs.Adjustments
import PageText.Proofs.Erasure
import PageText.Proofs.Delivery
import PageText.Proofs.UnitFactors
import PageText.Proofs.OperandShapes
import PageText.Proofs.AffineStates
import PageText.Proofs.Respelling
import PageText.Proofs.ListedRuns
import PageText.Proofs.HexStrings
import PageText.Proofs.Placements
import PageText.Proofs.SpacedStrings
import PageText.Proofs.LiteralStrings
import PageText.Proofs.Names
import PageText.Proofs.AfterImages
import PageText.Proofs.Baselines
import PageText.Proofs.VanishingNumerals
import PageText.Proofs.Keywords
import PageText.Proofs.WidthTables
import PageText.Proofs.CommandRuns
import PageText.Proofs.Cursors
import PageText.Proofs.ReadingBounds
