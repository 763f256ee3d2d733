import PhraseGrammar.Archive
import PhraseGrammar.CommandLine.Arguments
import PhraseGrammar.CommandLine.Help
import PhraseGrammar.CommandLine.Run
import PhraseGrammar.Extraction
import PhraseGrammar.Json.Extraction
import PhraseGrammar.Json.MatchOptions
import PhraseGrammar.Json.PatternSet
import PhraseGrammar.Json.Printer
import PhraseGrammar.Main
import PhraseGrammar.Proofs.Echoes
import PhraseGrammar.Proofs.LeafGrowth
import PhraseGrammar.Proofs.Registry
import PhraseGrammar.Proofs.Search
import PhraseGrammar.Proofs.LeafPass
import PhraseGrammar.Proofs.Binding
import PhraseGrammar.Proofs.CompositeStep
import PhraseGrammar.Proofs.LeafIndex
import PhraseGrammar.Proofs.CompositeWalk
import PhraseGrammar.Proofs.CompositePass
import PhraseGrammar.Proofs.Extraction
import PhraseGrammar.Proofs.LeafCost
import PhraseGrammar.Proofs.Budget
import PhraseGrammar.Proofs.LeafCompleteness
import PhraseGrammar.Proofs.Barrier
import PhraseGrammar.Proofs.Screening
import PhraseGrammar.Proofs.Conservativity
import PhraseGrammar.Proofs.Nesting
import PhraseGrammar.Proofs.Lockstep
import PhraseGrammar.Proofs.Likeness
import PhraseGrammar.Proofs.CompositeLockstep
import PhraseGrammar.Proofs.ExtractionLockstep
import PhraseGrammar.Proofs.HeadRoles
import PhraseGrammar.Proofs.Themes
import PhraseGrammar.Proofs.Confidence
import PhraseGrammar.Proofs.ConfidenceLockstep
import PhraseGrammar.Proofs.Uncleaned
import PhraseGrammar.Proofs.RegistryView
import PhraseGrammar.Proofs.FeatureString
import PhraseGrammar.Proofs.PatternSetForm
import PhraseGrammar.Proofs.Compilation
import PhraseGrammar.Proofs.GraphChanges
import PhraseGrammar.Proofs.WalkPath
import PhraseGrammar.Proofs.WalkEntries
import PhraseGrammar.Proofs.Depth
import PhraseGrammar.Proofs.WalkStatus
import PhraseGrammar.Proofs.HeadSource
import PhraseGrammar.Proofs.FeatureGrammar
import PhraseGrammar.Proofs.FeatureOrder
import PhraseGrammar.Proofs.TagOrder
import PhraseGrammar.Proofs.FeatureCalls
import PhraseGrammar.Proofs.FirstLongest
import PhraseGrammar.Proofs.LeafOrder
import PhraseGrammar.Proofs.LeafPositions
import PhraseGrammar.Proofs.CompositePositions
import PhraseGrammar.Proofs.ConditionOrder
import PhraseGrammar.Proofs.ReferenceOrder
import PhraseGrammar.Proofs.Adjacency
import PhraseGrammar.Proofs.PhraseKey
import PhraseGrammar.Proofs.Lines
import PhraseGrammar.Proofs.StopWords
