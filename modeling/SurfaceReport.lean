import SurfaceReport.Main
import SurfaceReport.Proofs.Contents
import SurfaceReport.Proofs.Discovery
import SurfaceReport.Proofs.XmlRoundTrip
import SurfaceReport.Proofs.Refusal
import SurfaceReport.Proofs.Reordering
import SurfaceReport.Proofs.XmlConformance
import SurfaceReport.Proofs.XmlUniqueness
import SurfaceReport.Proofs.RunEndings
import SurfaceReport.Proofs.ReportFiles
import SurfaceReport.Proofs.LogLines
import SurfaceReport.Proofs.RunLogs
import SurfaceReport.Proofs.ArgumentOrder
import SurfaceReport.Proofs.FailureReports
import SurfaceReport.Proofs.Mirror
import SurfaceReport.Proofs.Hidden
import SurfaceReport.Proofs.SparedInput
import SurfaceReport.Proofs.NestedNames
import SurfaceReport.Proofs.GenericInstances
import SurfaceReport.Proofs.NameShapes
import SurfaceReport.Proofs.CommandLines
import SurfaceReport.Proofs.SwallowedOptions
import SurfaceReport.Proofs.TornWrites
import SurfaceReport.Proofs.Collisions
import SurfaceReport.Proofs.XmlLayout
import SurfaceReport.Proofs.Additions
import SurfaceReport.Proofs.DisplayNames
import SurfaceReport.Proofs.Decorations
import SurfaceReport.Proofs.Listings
import SurfaceReport.Proofs.ParameterNames
