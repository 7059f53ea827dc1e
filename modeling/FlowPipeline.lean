import FlowPipeline.Main
import FlowPipeline.Proofs.LintGate
import FlowPipeline.Proofs.ArtifactOrigins
import FlowPipeline.Proofs.PackagedBodies
import FlowPipeline.Proofs.UseCases
import FlowPipeline.Proofs.WatchFaults
import FlowPipeline.Proofs.LintFindings
import FlowPipeline.Proofs.PackagedFlows
import FlowPipeline.Proofs.ModelLeaves
import FlowPipeline.Proofs.ModelReferences
import FlowPipeline.Proofs.ManifestReload
import FlowPipeline.Proofs.RepeatedBuilds
import FlowPipeline.Proofs.SecretKeys
import FlowPipeline.Proofs.KnownModels
import FlowPipeline.Proofs.SelectedPackages
import FlowPipeline.Proofs.LintCommand
import FlowPipeline.Proofs.EmittedModels
import FlowPipeline.Proofs.ModelSplicing
import FlowPipeline.Proofs.GeneratedTypes
import FlowPipeline.Proofs.AddedAbsences
import FlowPipeline.Proofs.IntervalPhases
import FlowPipeline.Proofs.WholeDurations
import FlowPipeline.Proofs.FractionalDurations
import FlowPipeline.Proofs.CadenceSpellings
import FlowPipeline.Proofs.RequestedScripts
import FlowPipeline.Proofs.WatchedScripts
import FlowPipeline.Proofs.ChangeBatches
import FlowPipeline.Proofs.Credentials
import FlowPipeline.Proofs.CanonicalOptions
import FlowPipeline.Proofs.ProviderEntries
import FlowPipeline.Proofs.ReportedFlows
import FlowPipeline.Proofs.MatchingScripts
