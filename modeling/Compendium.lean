import Compendium.CommandLine.Transcript
import Compendium.Main
import Compendium.Proofs.Constants
import Compendium.Proofs.DocumentFiles
import Compendium.Proofs.DraftOrder
import Compendium.Proofs.Loading
import Compendium.Proofs.Tables
import Compendium.Proofs.Templates
import Compendium.Proofs.Verified
import Compendium.Proofs.History
import Compendium.Proofs.UsedOnce
import Compendium.Proofs.Json.Describes
import Compendium.Proofs.Json.Faithful
import Compendium.Proofs.Records
import Compendium.Proofs.ModuleText
import Compendium.Proofs.Recording
import Compendium.Proofs.LaterSteps
import Compendium.Proofs.TreeChanges
import Compendium.Proofs.FileWrites
import Compendium.Proofs.OneByOne
import Compendium.Proofs.References
import Compendium.Proofs.Frontier
import Compendium.Proofs.Reachability
import Compendium.Proofs.SharedOut
import Compendium.Proofs.WellBracketed
import Compendium.Proofs.Relisted
import Compendium.Proofs.StableOrder
import Compendium.Proofs.SingleWalk
import Compendium.Proofs.NoTextLost
import Compendium.Proofs.Hints
import Compendium.Proofs.Links
import Compendium.Proofs.Shield
import Compendium.Proofs.Cut
import Compendium.Proofs.Numbered
import Compendium.Proofs.AllShielded
import Compendium.Proofs.Unobstructed
import Compendium.Proofs.ReadBack
