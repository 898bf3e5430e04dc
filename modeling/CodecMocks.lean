import CodecMocks.Main
import CodecMocks.Proofs.ClassBody
import CodecMocks.Proofs.Emission
import CodecMocks.Proofs.GroupStream
import CodecMocks.Proofs.MessageText
import CodecMocks.Proofs.Scripts
import CodecMocks.Proofs.Robustness
import CodecMocks.Proofs.Headings
import CodecMocks.Proofs.Truncation
import CodecMocks.Proofs.PropertyNames
import CodecMocks.Proofs.BoundNames
import CodecMocks.Proofs.CursorNames
import CodecMocks.Proofs.NameCharacters
import CodecMocks.Proofs.LineLayout
import CodecMocks.Proofs.TextLayout
import CodecMocks.Proofs.TypeBlocks
import CodecMocks.Proofs.Suppression
import CodecMocks.Proofs.WrittenEntries
import CodecMocks.Proofs.FailingSessions
import CodecMocks.Proofs.UnitNames
import CodecMocks.Proofs.DocumentParts
import CodecMocks.Proofs.DocumentRoundTrip
import CodecMocks.Proofs.EscapingFaults
import CodecMocks.Proofs.PathNames
import CodecMocks.Proofs.TreeGrowth
import CodecMocks.Proofs.UnitFiles
import CodecMocks.Proofs.AttachedValues
import CodecMocks.Proofs.CommandRuns
import CodecMocks.Proofs.UnwritableUnits
import CodecMocks.Proofs.CompositeMembers
import CodecMocks.Proofs.GroupLocality
import CodecMocks.Proofs.FormattedSessions
import CodecMocks.Proofs.WrittenPlaces
import CodecMocks.Proofs.FieldItems
import CodecMocks.Proofs.WordBoundaries
import CodecMocks.Proofs.PatternPasses
import CodecMocks.Proofs.SmallLetters
import CodecMocks.Proofs.SnakeCase
import CodecMocks.Proofs.DocumentGrammar
import CodecMocks.Proofs.ClassNames
import CodecMocks.Proofs.LeadingAcronyms
import CodecMocks.Proofs.BlockTrees
import CodecMocks.Proofs.ValidNames
import CodecMocks.Proofs.Declarations
import CodecMocks.Proofs.BlockPairs
import CodecMocks.Proofs.BodyScans
import CodecMocks.Proofs.DraftOperations
import CodecMocks.Proofs.OutputHistories
